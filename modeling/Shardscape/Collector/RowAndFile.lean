/-
# A row and its file

`store_block` and `promote_block_locally` (`src/storage.rs`) look the row of a block
up, put the file, and write the row; a sweep looks the row up, deletes it, and then
the file.  Each is a call of its own.  A writer that finds no row after the sweep has
deleted it puts the file and writes the row again, and the sweep then deletes the
file (`row_without_file`).

The ghost remembers for each thread what it is in the middle of: between the file and
the row of a block, or between the deletion of its row and that of its file.  If no
thread puts a file another is about to delete, and none deletes a row whose file
another has just put (`Exclusive`), every row has its file at all times
(`rows_have_files`).
-/

import Shardscape.Refinement.Runs

namespace Shardscape
namespace RowAndFile

open Lib Function Discipline Site

variable {κ : Type}

/-- What a thread is in the middle of. -/
inductive Phase where
  | idle
  | putting (hash : Bytes)
  | reaping (hash : Bytes)
  deriving DecidableEq

/-- A site with a local disk, and the phase of each thread. -/
abbrev World (κ : Type) := Site localBlob × (κ → Phase)

/-- The file of a block. -/
def file (s : Site localBlob) (h : Bytes) : Option Bytes :=
  AList.lookup h (show Table Bytes Bytes from s.blobs)

/-- The phase of a thread after a call. -/
def phaseAfter (phase : Phase) (l : Call) (s : Site localBlob) : Phase :=
  match l with
  | .getLocalBlockFid _ => .idle
  | .blobPut h => if s.oracle.putFails s.tick = none then .putting h else .idle
  | .storeLocalBlock _ => .idle
  | .deleteLocalBlock h => if s.store.HoldsLocally h then .reaping h else .idle
  | .blobDelete _ => .idle
  | _ => phase

/-- No file is put that another thread is about to delete, and no row deleted whose
file another thread has just put. -/
def Exclusive (l : Call) (w : World κ) : Prop :=
  match l with
  | .blobPut h => ∀ j, w.2 j ≠ .reaping h
  | .deleteLocalBlock h => w.1.store.HoldsLocally h → ∀ j, w.2 j ≠ .putting h
  | _ => True

variable (Good : Bytes → Bytes → Prop)

/-- A row has a file of good bytes, and so has a block whose row is about to be
written; nobody is about to delete either. -/
structure Inv (w : World κ) : Prop where
  row : ∀ h, w.1.store.HoldsLocally h → ∃ d, file w.1 h = some d ∧ Good h d
  putting : ∀ h i, w.2 i = .putting h → ∃ d, file w.1 h = some d ∧ Good h d
  rowKept : ∀ h i, w.1.store.HoldsLocally h → w.2 i ≠ .reaping h
  fileKept : ∀ h i j, w.2 i = .putting h → w.2 j ≠ .reaping h

variable [DecidableEq κ]

/-- The discipline: each thread relies on its phase being its own. -/
def discipline : Discipline κ Call (Site localBlob) (κ → Phase) where
  record i g l s _ := update g i (phaseAfter (g i) l s)
  cond _ l w := Exclusive l w
  inv := Inv Good
  rely i w w' := w'.2 i = w.2 i
  guar i w w' := ∀ j, j ≠ i → w'.2 j = w.2 j
  rely_refl _ _ := rfl
  rely_trans _ _ _ _ h h' := h'.trans h
  guar_rely _ j _ _ hne _ _ h := h j hne.symm

variable {Good}

/-- The world after a call of thread `i`. -/
def after (i : κ) (l : Call) (eff : Site localBlob → Site localBlob) (w : World κ) : World κ :=
  (eff w.1, update w.2 i (phaseAfter (w.2 i) l w.1))

/-! ### What one call keeps -/

variable {l : Call} {eff : Site localBlob → Site localBlob} {w : World κ}

/-- A phase after a call is that of the caller, or an old one. -/
theorem phase_after {i j : κ} {p : Phase} (hj : (after i l eff w).2 j = p) :
    (j = i ∧ phaseAfter (w.2 i) l w.1 = p) ∨ w.2 j = p := by
  by_cases hji : j = i
  · subst hji
    exact .inl ⟨rfl, by simpa only [after, update_self] using hj⟩
  · exact .inr (by simpa only [after, update_of_ne hji] using hj)

/-- A call after which its thread is idle, or where it was, begins no phase. -/
theorem old_phase {i j : κ} {p : Phase}
    (hl : phaseAfter (w.2 i) l w.1 = .idle ∨ phaseAfter (w.2 i) l w.1 = w.2 i) (hp : p ≠ .idle)
    (hj : (after i l eff w).2 j = p) : w.2 j = p := by
  rcases phase_after hj with ⟨rfl, hj⟩ | hj
  · rcases hl with hidle | hkeep
    · exact absurd (hj.symm.trans hidle) hp
    · exact hkeep ▸ hj
  · exact hj

/-- A call that leaves rows and files alone. -/
theorem Inv.same {i : κ} (h : Inv Good w)
    (hheld : ∀ b, (eff w.1).store.HoldsLocally b ↔ w.1.store.HoldsLocally b)
    (hblobs : (eff w.1).blobs = w.1.blobs)
    (hl : phaseAfter (w.2 i) l w.1 = .idle ∨ phaseAfter (w.2 i) l w.1 = w.2 i) :
    Inv Good (after i l eff w) := by
  have hfile : ∀ b, file (eff w.1) b = file w.1 b := fun b => by rw [file, file, hblobs]
  refine ⟨fun b hb => ?_, fun b j hj => ?_, fun b j hb hj => ?_, fun b j k hj hk => ?_⟩
  · rw [after, hfile]
    exact h.row b ((hheld b).1 hb)
  · rw [after, hfile]
    exact h.putting b j (old_phase hl (by simp) hj)
  · exact h.rowKept b j ((hheld b).1 hb) (old_phase hl (by simp) hj)
  · exact h.fileKept b j k (old_phase hl (by simp) hj) (old_phase hl (by simp) hk)

/-- The file of a block is put. -/
theorem Inv.put {i : κ} {b d : Bytes} (h : Inv Good w) (hgood : Good b d)
    (hok : w.1.oracle.putFails w.1.tick = none) (hexcl : Exclusive (.blobPut b) w)
    (hstore : (eff w.1).store = w.1.store)
    (hfile : ∀ b', file (eff w.1) b' = if b' = b then some d else file w.1 b') :
    Inv Good (after i (.blobPut b) eff w) := by
  have hphase : phaseAfter (w.2 i) (.blobPut b) w.1 = .putting b := if_pos hok
  have hput : ∀ {b' : Bytes} {j : κ}, (after i (.blobPut b) eff w).2 j = .putting b' →
      b' = b ∨ w.2 j = .putting b' := by
    intro b' j hj
    rcases phase_after hj with ⟨-, hj⟩ | hj
    · exact .inl (Phase.putting.inj (hj.symm.trans hphase))
    · exact .inr hj
  have hreap : ∀ {b' : Bytes} {j : κ}, (after i (.blobPut b) eff w).2 j = .reaping b' →
      w.2 j = .reaping b' := by
    intro b' j hj
    rcases phase_after hj with ⟨-, hj⟩ | hj
    · exact nomatch hphase.symm.trans hj
    · exact hj
  refine ⟨fun b' hb => ?_, fun b' j hj => ?_, fun b' j hb hj => ?_, fun b' j k hj hk => ?_⟩
  · rw [after, hfile]
    split_ifs with hbb
    · exact ⟨d, rfl, hbb ▸ hgood⟩
    · exact h.row b' (hstore ▸ hb)
  · rw [after, hfile]
    split_ifs with hbb
    · exact ⟨d, rfl, hbb ▸ hgood⟩
    · exact h.putting b' j ((hput hj).resolve_left hbb)
  · exact h.rowKept b' j (hstore ▸ hb) (hreap hj)
  · rcases hput hj with rfl | hj
    · exact hexcl k (hreap hk)
    · exact h.fileKept b' j k hj (hreap hk)

/-- The row of a block is written whose file the thread has put. -/
theorem Inv.store {i : κ} {b : Bytes} (h : Inv Good w) (hi : w.2 i = .putting b)
    (hheld : ∀ b', (eff w.1).store.HoldsLocally b' ↔ b' = b ∨ w.1.store.HoldsLocally b')
    (hblobs : (eff w.1).blobs = w.1.blobs) :
    Inv Good (after i (.storeLocalBlock b) eff w) := by
  have hfile : ∀ b, file (eff w.1) b = file w.1 b := fun b => by rw [file, file, hblobs]
  have hl : phaseAfter (w.2 i) (.storeLocalBlock b) w.1 = .idle ∨
      phaseAfter (w.2 i) (.storeLocalBlock b) w.1 = w.2 i := .inl rfl
  refine ⟨fun b' hb => ?_, fun b' j hj => ?_, fun b' j hb hj => ?_, fun b' j k hj hk => ?_⟩
  · rw [after, hfile]
    rcases (hheld b').1 hb with rfl | hb
    · exact h.putting b' i hi
    · exact h.row b' hb
  · rw [after, hfile]
    exact h.putting b' j (old_phase hl (by simp) hj)
  · rcases (hheld b').1 hb with rfl | hb
    · exact h.fileKept b' i j hi (old_phase hl (by simp) hj)
    · exact h.rowKept b' j hb (old_phase hl (by simp) hj)
  · exact h.fileKept b' j k (old_phase hl (by simp) hj) (old_phase hl (by simp) hk)

/-- A row is deleted. -/
theorem Inv.delete {i : κ} {b : Bytes} (h : Inv Good w) (hexcl : Exclusive (.deleteLocalBlock b) w)
    (hheld : ∀ b', (eff w.1).store.HoldsLocally b' ↔ b' ≠ b ∧ w.1.store.HoldsLocally b')
    (hblobs : (eff w.1).blobs = w.1.blobs) :
    Inv Good (after i (.deleteLocalBlock b) eff w) := by
  have hfile : ∀ b, file (eff w.1) b = file w.1 b := fun b => by rw [file, file, hblobs]
  have hput : ∀ {b' : Bytes} {j : κ}, (after i (.deleteLocalBlock b) eff w).2 j = .putting b' →
      w.2 j = .putting b' := by
    intro b' j hj
    rcases phase_after hj with ⟨-, hj⟩ | hj
    · simp only [phaseAfter] at hj
      split_ifs at hj
    · exact hj
  have hreap : ∀ {b' : Bytes} {j : κ}, (after i (.deleteLocalBlock b) eff w).2 j = .reaping b' →
      w.2 j = .reaping b' ∨ (b' = b ∧ w.1.store.HoldsLocally b) := by
    intro b' j hj
    rcases phase_after hj with ⟨-, hj⟩ | hj
    · simp only [phaseAfter] at hj
      split_ifs at hj with hheldb
      exact .inr ⟨(Phase.reaping.inj hj).symm, hheldb⟩
    · exact .inl hj
  refine ⟨fun b' hb => ?_, fun b' j hj => ?_, fun b' j hb hj => ?_, fun b' j k hj hk => ?_⟩
  · rw [after, hfile]
    exact h.row b' ((hheld b').1 hb).2
  · rw [after, hfile]
    exact h.putting b' j (hput hj)
  · rcases hreap hj with hj | ⟨rfl, -⟩
    · exact h.rowKept b' j ((hheld b').1 hb).2 hj
    · exact ((hheld b').1 hb).1 rfl
  · rcases hreap hk with hk | ⟨rfl, hheldb⟩
    · exact h.fileKept b' j k (hput hj) hk
    · exact hexcl hheldb j (hput hj)

/-- A file is deleted whose row the thread has deleted. -/
theorem Inv.unlink {i : κ} {b : Bytes} (h : Inv Good w) (hi : w.2 i = .reaping b)
    (hstore : (eff w.1).store = w.1.store)
    (hfile : ∀ b', b' ≠ b → file (eff w.1) b' = file w.1 b') :
    Inv Good (after i (.blobDelete b) eff w) := by
  have hl : phaseAfter (w.2 i) (.blobDelete b) w.1 = .idle ∨
      phaseAfter (w.2 i) (.blobDelete b) w.1 = w.2 i := .inl rfl
  refine ⟨fun b' hb => ?_, fun b' j hj => ?_, fun b' j hb hj => ?_, fun b' j k hj hk => ?_⟩
  · have hb : w.1.store.HoldsLocally b' := hstore ▸ hb
    have hne : b' ≠ b := fun hbb => h.rowKept b' i hb (hbb ▸ hi)
    rw [after, hfile b' hne]
    exact h.row b' hb
  · have hj := old_phase hl (by simp) hj
    have hne : b' ≠ b := fun hbb => h.fileKept b' j i hj (hbb ▸ hi)
    rw [after, hfile b' hne]
    exact h.putting b' j hj
  · exact h.rowKept b' j (hstore ▸ hb) (old_phase hl (by simp) hj)
  · exact h.fileKept b' j k (old_phase hl (by simp) hj) (old_phase hl (by simp) hk)

/-! ### Programs -/

variable {i : κ} {ε α β : Type}

/-- One call of thread `i`. -/
theorem safe_call {f : Site localBlob → Site localBlob × α} {Q : Except ε α → World κ → Prop}
    (h : ∀ w', w'.2 i = w.2 i → Inv Good w' → Exclusive l w' →
      Inv Good (after i l (fun s => (f s).1) w') ∧
        Q (.ok (f w'.1).2) (after i l (fun s => (f s).1) w')) :
    (discipline Good).Safe i (Prog.call l f : SProg localBlob ε α) Q w := by
  intro w' hw hinv hcond
  obtain ⟨hinv', hQ⟩ := h w' hw hinv hcond
  exact ⟨hinv', fun j hj => update_of_ne hj _ _, hQ⟩

/-- Thread `i` running `p` keeps to the discipline, wherever it begins. -/
def Keeps (Good : Bytes → Bytes → Prop) (i : κ) {ε α : Type} (p : SProg localBlob ε α) : Prop :=
  ∀ w, (discipline Good).Safe i p (fun _ _ => True) w

/-- A sequence, from its parts. -/
theorem Keeps.seq {p : SProg localBlob ε β} {k : β → SProg localBlob ε α}
    (h : Keeps Good i p) (hk : ∀ b, Keeps Good i (k b)) : Keeps Good i (p >>= k) := by
  intro w
  refine Safe.bind ((h w).mono fun r w' _ => ?_)
  cases r with
  | ok b => exact hk b w'
  | error e => trivial

/-- To return does nothing. -/
theorem keeps_pure (a : α) : Keeps Good i (pure a : SProg localBlob ε α) := fun _ => trivial

/-- A loop, from its body. -/
theorem keeps_forEach {body : β → SProg localBlob ε Unit} {l : List β}
    (h : ∀ b, Keeps Good i (body b)) : Keeps Good i (Prog.forEach body l) := by
  intro w
  refine Safe.forEach (fun _ _ => True) (fun _ _ => trivial) (fun b bs w _ => ?_) trivial
  refine (h b w).mono fun r w' _ => ?_
  cases r <;> trivial

/-- A call that leaves rows and files alone and begins no phase. -/
theorem keeps_call {f : Site localBlob → Site localBlob × α}
    (hf : ∀ s, (f s).1.store.blockLocations = s.store.blockLocations ∧
      (f s).1.store.localLocationId = s.store.localLocationId ∧ (f s).1.blobs = s.blobs)
    (hl : ∀ p s, phaseAfter p l s = .idle ∨ phaseAfter p l s = p) :
    Keeps Good i (Prog.call l f : SProg localBlob ε α) := by
  refine fun w => safe_call fun w' _ hinv _ => ⟨?_, trivial⟩
  refine Inv.same hinv (fun b => ?_) (hf w'.1).2.2 (hl _ _)
  rw [Store.HoldsLocally, Store.HoldsLocally, (hf w'.1).1, (hf w'.1).2.1]

/-- A query. -/
theorem keeps_db {f : Store → α} (hl : ∀ p s, phaseAfter p l s = .idle ∨ phaseAfter p l s = p) :
    Keeps Good i (db l f : SProg localBlob ε α) :=
  keeps_call (f := fun s => (s, f s.store)) (fun _ => ⟨rfl, rfl, rfl⟩) hl

/-- A call to the outside. -/
theorem keeps_ask {f : Site localBlob → ℕ → α}
    (hl : ∀ p s, phaseAfter p l s = .idle ∨ phaseAfter p l s = p) :
    Keeps Good i (ask l f : SProg localBlob ε α) :=
  keeps_call (fun _ => ⟨rfl, rfl, rfl⟩) hl

/-! ### The writers -/

/-- After the put of a file the thread is about to write the row. -/
theorem safe_blobPut {h d : Bytes} (hgood : Good h d) (w : World κ) :
    (discipline Good).Safe i (blobPut h d)
      (fun r w' => ∀ fid, r = .ok fid → w'.2 i = .putting h) w := by
  refine Safe.bind (safe_call fun w' _ hinv hcond => ?_)
  cases hput : w'.1.oracle.putFails w'.1.tick with
  | some e =>
    refine ⟨?_, fun fid hr => nomatch hr⟩
    refine Inv.same hinv (fun b => ?_) ?_ (.inl (if_neg ?_)) <;> simp [hput]
  | none =>
    refine ⟨?_, fun fid _ => ?_⟩
    · refine Inv.put hinv hgood hput hcond ?_ fun b' => ?_
      · simp only [hput]
      · simp only [hput]
        exact Table.lookup_insert _ _ _ _
    · exact (update_self _ _ _).trans (if_pos hput)

/-- The row of a file the thread has put. -/
theorem safe_storeLocalBlock {h fid : Bytes} {size : ℤ} (hw : w.2 i = .putting h) :
    (discipline Good).Safe i (storeLocalBlock h fid size : SProg localBlob ε Unit)
      (fun _ _ => True) w := by
  refine Safe.bind (safe_call fun w₁ hw₁ hinv₁ _ => ⟨?_, ?_⟩)
  · exact Inv.same hinv₁ (fun b => Iff.rfl) rfl (.inr rfl)
  · refine safe_call (f := fun s => ({ s with store := _ }, ())) fun w₂ hw₂ hinv₂ _ => ⟨?_, trivial⟩
    have hphase : w₂.2 i = .putting h :=
      hw₂.trans ((update_self _ _ _).trans (hw₁.trans hw))
    exact Inv.store hinv₂ hphase (Store.holdsLocally_storeLocalBlock _ _ _ _ _) rfl

/-- A put and its row. -/
theorem keeps_putRow {h d : Bytes} {size : ℤ} (hgood : Good h d)
    {k : Unit → SProg localBlob Str α} (hk : Keeps Good i (k ())) :
    Keeps Good i (blobPut h d >>= fun fid => storeLocalBlock h fid size >>= k) := by
  intro w
  refine Safe.bind ((safe_blobPut hgood w).mono fun r w' hr => ?_)
  cases r with
  | error e => trivial
  | ok fid =>
    refine Safe.bind ((safe_storeLocalBlock (hr fid rfl)).mono fun r w'' _ => ?_)
    cases r with
    | ok _ => exact hk w''
    | error e => trivial

/-- The look-up of a block. -/
theorem keeps_getLocalBlockFid (h : Bytes) :
    Keeps Good i (getLocalBlockFid h : SProg localBlob ε (Option Bytes)) :=
  keeps_db fun _ _ => .inl rfl

/-- The file is put before the row is written. -/
theorem keeps_promoteBlockLocally {h d : Bytes} (hgood : Good h d) :
    Keeps Good i (promoteBlockLocally h d) := by
  refine (keeps_getLocalBlockFid h).seq fun fid => ?_
  cases fid with
  | some fid => exact keeps_pure _
  | none =>
    have hput : Keeps Good i (blobPut h d >>= fun fid =>
        storeLocalBlock h fid d.length >>= pure) := keeps_putRow hgood (keeps_pure ())
    simpa only [bind_pure] using hput

/-- The same when the block is not there yet. -/
theorem keeps_storeBlock {B : Blake3} {d : Bytes} {size : ℤ} (hgood : Good (B.hash d) d) :
    Keeps Good i (storeBlock B d size) := by
  refine (keeps_getLocalBlockFid _).seq fun fid => ?_
  cases fid with
  | some fid => exact keeps_pure _
  | none => exact keeps_putRow hgood (keeps_pure _)

/-! ### The sweep -/

/-- A mark is no matter of rows and files. -/
theorem keeps_removePendingDeletion (h : Bytes) :
    Keeps Good i (removePendingDeletion h : SProg localBlob ε Unit) :=
  keeps_call (f := fun s => ({ s with store := s.store.removePendingDeletion h }, ()))
    (fun _ => ⟨rfl, rfl, rfl⟩) fun _ _ => .inr rfl

/-- The row is deleted before the file. -/
theorem keeps_reapBlock (h : Bytes) :
    Keeps Good i (reapBlock h : SProg localBlob ε Unit) := by
  refine (keeps_getLocalBlockFid h).seq fun fid => ?_
  cases fid with
  | none => exact keeps_removePendingDeletion h
  | some fid =>
    intro w
    refine Safe.bind (safe_call fun w₁ _ hinv₁ hcond => ⟨?_, ?_⟩)
    · exact Inv.delete hinv₁ hcond (Store.holdsLocally_deleteLocalBlock _ _) rfl
    dsimp only
    cases hdel : (w₁.1.store.deleteLocalBlock h).2 with
    | false => exact keeps_removePendingDeletion h _
    | true =>
      have hheld : w₁.1.store.HoldsLocally h := Option.isSome_iff_exists.1 hdel
      refine Safe.bind (safe_call (f := fun s => ({ s with blobs := _ }, ()))
        fun w₂ hw₂ hinv₂ _ => ⟨?_, keeps_removePendingDeletion h _⟩)
      have hphase : w₂.2 i = .reaping h :=
        hw₂.trans ((update_self _ _ _).trans (if_pos hheld))
      exact Inv.unlink hinv₂ hphase rfl fun b' hb' => AList.lookup_erase_ne hb'

/-- A sweep reaps block after block. -/
theorem keeps_sweepOrphanedBlocks (cfg : GcConfig) (force : Bool) :
    Keeps Good i (sweepOrphanedBlocks cfg force : SProg localBlob ε Unit) := by
  refine Keeps.seq (p := computeLiveBlockSet) (keeps_db fun _ _ => .inr rfl) fun live => ?_
  refine Keeps.seq (p := listLocalBlockHashes) (keeps_db fun _ _ => .inr rfl) fun held => ?_
  refine Keeps.seq (p := getPendingDeletions) (keeps_db fun _ _ => .inr rfl)
    fun pending => ?_
  refine Keeps.seq (p := systemTime) (keeps_ask fun _ _ => .inr rfl) fun micros => ?_
  refine Keeps.seq (keeps_forEach fun h => ?_) fun _ => keeps_forEach fun h => ?_
  · unfold sweepBlock
    split
    · split
      · exact keeps_removePendingDeletion h
      · exact keeps_pure _
    · refine Keeps.seq ?_ fun t => ?_
      · unfold reapAt
        cases pending.lookup h with
        | some t => exact keeps_pure _
        | none =>
          refine Keeps.seq (p := markTime) (keeps_ask fun _ _ => .inr rfl) fun micros => ?_
          refine Keeps.seq (p := addPendingDeletion h _) ?_ fun _ => keeps_pure _
          exact keeps_call (f := fun s =>
            ({ s with store := s.store.addPendingDeletion h _ }, ()))
            (fun _ => ⟨rfl, rfl, rfl⟩) fun _ _ => .inr rfl
      · split
        · exact keeps_pure _
        · exact keeps_reapBlock h
  · split
    · exact keeps_pure _
    · exact keeps_removePendingDeletion h

end RowAndFile
end Shardscape
