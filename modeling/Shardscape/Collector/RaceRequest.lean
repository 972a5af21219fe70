/-
# The side of the request

`put_object` and `upload_part` against the sweep.  While the body comes in, every
block stored is kept (`Receiving`); the row names them all, and from then on the
live set protects them.
-/

import Shardscape.Backend.Receive
import Shardscape.Collector.Race

namespace Shardscape
namespace Race

open Lib Discipline

variable {Blob : BlobStore} {cfg : GcConfig} {α ε : Type} {Q : Except ε α → Race Blob → Prop}
  {w : Race Blob}

/-! ### The calls of the request -/

/-- What the request knows while its body comes in: the blocks `hs` are kept, those
of `sp` are looked up and spared, and the row is not written. -/
structure Receiving (hs sp : List Bytes) (w : Race Blob) : Prop where
  unwritten : w.2.written = false
  kept : ∀ h ∈ hs, Kept w h
  spared : ∀ h ∈ sp, h ∈ w.2.looked ∧ Spared w h

variable {hs sp : List Bytes}

/-- Sweeps leave alone what is being received. -/
theorem Receiving.sweepStep {w w' : Race Blob} (h : Receiving hs sp w) (hw : SweepStep w w') :
    Receiving hs sp w' where
  unwritten := hw.written.trans h.unwritten
  kept b hb := hw.kept b (h.kept b hb)
  spared b hb := by
    obtain ⟨hlooked, hspared⟩ := h.spared b hb
    exact ⟨hw.looked ▸ hlooked, hw.spared b hlooked hspared⟩

/-- A call of the request other than its first and its last: the marks and the
manifests stay, and what is held stays. -/
structure Stores (s s' : Site Blob) : Prop where
  oracle : s'.oracle = s.oracle
  tick : s.tick ≤ s'.tick
  pending : s'.store.pendingDeletions = s.store.pendingDeletions
  objects : s'.store.objects = s.store.objects
  parts : s'.store.parts = s.store.parts
  held : ∀ h, s.store.HoldsLocally h → s'.store.HoldsLocally h

/-- A block that is spared stays spared while others are stored. -/
theorem Stores.spared {s s' : Site Blob} {g : RaceGhost} (h : Stores s s') {b : Bytes}
    (hb : Spared (s, g) b) : Spared (s', g) b := by
  intro hst now hnow t ht
  exact hb hst now hnow t (by rw [← h.pending]; exact ht)

/-- What is being received is kept while others are stored. -/
theorem Stores.receiving {s s' : Site Blob} {g : RaceGhost} (h : Stores s s')
    (hr : Receiving hs sp (s, g)) : Receiving hs sp (s', g) where
  unwritten := hr.unwritten
  kept b hb :=
    { looked := (hr.kept b hb).looked
      held := h.held b (hr.kept b hb).held
      spared := h.spared (hr.kept b hb).spared
      named := fun hw => absurd (hr.unwritten.symm.trans hw) Bool.false_ne_true }
  spared b hb := ⟨(hr.spared b hb).1, h.spared (hr.spared b hb).2⟩

/-- The invariant survives a call of the request. -/
theorem Stores.inv {s s' : Site Blob} {g g' : RaceGhost} (h : Stores s s') (hinv : Inv cfg (s, g))
    (hread : g'.read = g.read) : Inv cfg (s', g') where
  mono := h.oracle ▸ hinv.mono
  fits := h.oracle ▸ hinv.fits
  past now hnow n hn := by
    rw [h.oracle]
    exact hinv.past now (hread ▸ hnow) n (h.tick.trans hn)

/-- A call of the request while its body comes in. -/
theorem safe_receiving (hr : Receiving hs sp w) {l : Call} {eff : Site Blob → Site Blob}
    {next : Site Blob → Site.SProg Blob ε α}
    (hl : ∀ g (s : Site Blob), raceRecord .request g l s = g) (heff : ∀ s, Stores s (eff s))
    (h : ∀ s g, Receiving hs sp (eff s, g) → Safe cfg .request (next s) Q (eff s, g)) :
    Safe cfg .request (.step l eff next) Q w := by
  intro w' hw hinv _
  have hst := heff w'.1
  simp only [after, discipline, hl]
  exact ⟨hst.inv hinv rfl, ⟨hst.pending, rfl, rfl, fun hw => ⟨hw, hst.objects, hst.parts⟩⟩,
    h w'.1 w'.2 (hst.receiving (hr.sweepStep hw))⟩

/-- A call to the outside, while a body is received. -/
theorem receiving_ask (hr : Receiving hs sp w) {l : Call}
    (hl : ∀ g (s : Site Blob), raceRecord .request g l s = g) {f : Site Blob → ℕ → α}
    (h : ∀ a w', Receiving hs sp w' → Q (.ok a) w') :
    Safe cfg .request (Site.ask l f) Q w :=
  safe_receiving hr hl (fun _ => ⟨rfl, Nat.le_succ _, rfl, rfl, rfl, fun _ h => h⟩)
    fun _ _ hr' => h _ _ hr'

/-- A query, while a body is received. -/
theorem receiving_db (hr : Receiving hs sp w) {l : Call}
    (hl : ∀ g (s : Site Blob), raceRecord .request g l s = g) {f : Store → α}
    (h : ∀ w', Receiving hs sp w' → Q (.ok (f w'.1.store)) w') :
    Safe cfg .request (Site.db l f) Q w :=
  safe_receiving hr hl (fun _ => ⟨rfl, le_rfl, rfl, rfl, rfl, fun _ h => h⟩)
    fun s g hr' => h (s, g) hr'

/-- The look-up of a block: by the condition, it is spared. -/
theorem receiving_getLocalBlockFid {hs : List Bytes} {hash : Bytes} (hr : Receiving hs [] w)
    {Q : Except ε (Option Bytes) → Race Blob → Prop}
    (h : ∀ w', Receiving hs [hash] w' → Q (.ok (w'.1.store.getLocalBlockFid hash)) w') :
    Safe cfg .request (Site.getLocalBlockFid hash) Q w := by
  intro w' hw hinv hcond
  have hr' := hr.sweepStep hw
  refine ⟨⟨hinv.mono, hinv.fits, hinv.past⟩, ⟨rfl, rfl, rfl, fun hw => ⟨hw, rfl, rfl⟩⟩,
    h (w'.1, { w'.2 with looked := hash :: w'.2.looked })
      ⟨hr'.unwritten, fun b hb => ?_, fun b hb => ?_⟩⟩
  · obtain ⟨hlooked, hheld, hspared, hnamed⟩ := hr'.kept b hb
    exact ⟨List.mem_cons_of_mem hash hlooked, hheld, hspared, hnamed⟩
  · rw [List.mem_singleton.1 hb]
    exact ⟨List.mem_cons_self, hcond⟩

/-- A block is held and spared: from then on it is kept. -/
theorem Receiving.keep {hs : List Bytes} {h : Bytes} (hr : Receiving hs [h] w)
    (hheld : w.1.store.HoldsLocally h) : Receiving (hs ++ [h]) [] w := by
  refine ⟨hr.unwritten, fun b hb => ?_, fun _ h => nomatch h⟩
  rcases List.mem_append.1 hb with hb | hb
  · exact hr.kept b hb
  · obtain ⟨hlooked, hspared⟩ := hr.spared h (List.mem_singleton_self h)
    rw [List.mem_singleton.1 hb]
    exact ⟨hlooked, hheld, hspared,
      fun hw => absurd (hr.unwritten.symm.trans hw) Bool.false_ne_true⟩

/-- A put of the blob store, while a body is received. -/
theorem receiving_blobPut (hr : Receiving hs sp w) {hash data : Bytes}
    {Q : Except Str Bytes → Race Blob → Prop} (h : ∀ r w', Receiving hs sp w' → Q r w') :
    Safe cfg .request (Site.blobPut hash data) Q w := by
  refine Safe.bind (safe_receiving hr (fun _ _ => rfl) (fun s => ?_)
    fun s g hr' => Safe.ofExcept (h _ _ hr'))
  dsimp only
  split <;> exact ⟨rfl, Nat.le_succ _, rfl, rfl, rfl, fun _ h => h⟩

/-- The row of the block that was looked up is written: it is kept. -/
theorem receiving_storeLocalBlock {hs : List Bytes} {hash fid : Bytes} {size : ℤ}
    (hr : Receiving hs [hash] w) {Q : Except ε Unit → Race Blob → Prop}
    (h : ∀ w', Receiving (hs ++ [hash]) [] w' → Q (.ok ()) w') :
    Safe cfg .request (Site.storeLocalBlock hash fid size) Q w := by
  refine Safe.bind (receiving_ask hr (fun _ _ => rfl) fun ts w₁ hr₁ => ?_)
  have hheld := fun st : Store => Store.holdsLocally_storeLocalBlock st ts hash fid size
  refine safe_receiving hr₁ (fun _ _ => rfl)
    (fun s => ⟨rfl, le_rfl, rfl, rfl, rfl, fun b hb => (hheld s.store b).2 (.inr hb)⟩)
    fun s g hr₂ => h _ (hr₂.keep ((hheld s.store hash).2 (.inl rfl)))

/-- `store_block`: at the look-up the block is spared, and when it returns it is
held. -/
theorem receiving_storeBlock {B : Blake3} {hs : List Bytes} (hr : Receiving hs [] w) {d : Bytes}
    {size : ℤ} {Q : Except Str Bytes → Race Blob → Prop}
    (hok : ∀ w', Receiving (hs ++ [B.hash d]) [] w' → Q (.ok (B.hash d)) w')
    (herr : ∀ e w', Q (.error e) w') :
    Safe cfg .request (Site.storeBlock B d size) Q w := by
  refine Safe.bind (receiving_getLocalBlockFid hr fun w₁ hr₁ => ?_)
  cases hfid : w₁.1.store.getLocalBlockFid (B.hash d) with
  | some fid =>
    refine hok _ (hr₁.keep (Store.getLocalBlockFid_isSome_iff.1 ?_))
    rw [hfid]
    rfl
  | none =>
    refine Safe.bind (receiving_blobPut hr₁ fun r w₂ hr₂ => ?_)
    cases r with
    | error e => exact herr e w₂
    | ok fid =>
      exact Safe.bind
        (receiving_storeLocalBlock hr₂ fun w₃ hr₃ => hok w₃ hr₃)

/-! ### Receiving a body -/

variable {S : StorageBackend}

/-- The request begins. -/
theorem safe_diskGuard (hwr : w.2.written = false)
    {Q : Except ε (Option GuardTrip) → Race Blob → Prop}
    (h : ∀ trip w', Receiving [] [] w' → Q (.ok trip) w') :
    Safe cfg .request Site.diskGuard Q w := by
  intro w' hw hinv _
  refine ⟨⟨hinv.mono, hinv.fits, fun now hnow n hn => ?_⟩,
    ⟨rfl, rfl, rfl, fun h => ⟨h, rfl, rfl⟩⟩,
    h _ _ ⟨hw.written.trans hwr, fun _ hb => (nomatch hb), fun _ hb => (nomatch hb)⟩⟩
  exact hinv.past now hnow n ((Nat.le_succ _).trans hn)

/-- What receiving ends with: the blocks `hs` are stored and kept, or an error. -/
def Received (hs : List Bytes) (r : Except S3Error Upload) (w : Race Blob) : Prop :=
  match r with
  | .ok u => u.blockHashes = hs ∧ Receiving hs [] w
  | .error _ => True

/-- The chunks of a body are kept one by one. -/
theorem receiving_storeAll {ds : List Bytes} {Q : Except S3Error (List Bytes) → Race Blob → Prop}
    {hs : List Bytes} (hr : Receiving hs [] w)
    (hok : ∀ w', Receiving (hs ++ ds.map S.blake3.hash) [] w' →
      Q (.ok (ds.map S.blake3.hash)) w') (herr : ∀ e w', Q (.error e) w') :
    Safe cfg .request (S.storeAll ds) Q w := by
  induction ds generalizing hs w Q with
  | nil => exact hok w (by rwa [List.map_nil, List.append_nil])
  | cons d ds ih =>
    refine Safe.bind (Safe.mapErr (receiving_storeBlock hr
      (fun w₁ h₁ => Safe.bind (ih h₁ (fun w₂ h₂ => ?_) herr)) fun _ w' => herr _ w'))
    refine hok w₂ ?_
    rwa [List.map_cons, List.append_cons]

/-- **The blocks of a body, however it is framed and cut, are kept when the body is
in.** -/
theorem safe_receiveBody (hr : Receiving [] [] w) (body : List (Except Str Bytes)) :
    Safe cfg .request (S.receiveBody body)
      (Received ((S.chunker.chunks S.fastcdc body []).map S.blake3.hash)) w := by
  rw [StorageBackend.receiveBody_eq]
  refine Safe.bind (receiving_storeAll hr (fun w₁ h₁ => ?_) fun _ _ => trivial)
  cases ChunkingStrategy.bodyOf body with
  | error e => trivial
  | ok data => exact ⟨rfl, h₁⟩

/-! ### The request -/

/-- A request that receives a body. -/
def HasBody : StorageBackend.Request → Prop
  | .putObject _ _ _ => True
  | .uploadPart _ _ _ _ => True
  | _ => False

/-- The blocks column of the live row under the name a request writes to. -/
def rowBlocks (st : Store) : StorageBackend.Request → Option Bytes
  | .putObject bucket key _ =>
    (st.objects.lookup (bucket, key)).bind fun row =>
      if row.deleted then none else some row.blocks
  | .uploadPart bucket (some uploadId) partNumber _ =>
    (st.parts.lookup (bucket, uploadId, partNumber)).map (·.blocks)
  | _ => none

/-- The blocks of the body of a request. -/
def bodyBlocks (S : StorageBackend) (R : StorageBackend.Request) : List Bytes :=
  (R.chunks S).map S.blake3.hash

/-- The row of a request is there. -/
def RowWritten (S : StorageBackend) (R : StorageBackend.Request) (st : Store) : Prop :=
  rowBlocks st R = some (Store.encodeBlocks (bodyBlocks S R))

variable {R : StorageBackend.Request}

/-- The row of a request names its blocks. -/
theorem RowWritten.named {st : Store} (hrow : RowWritten S R st) {h : Bytes}
    (hh : h ∈ bodyBlocks S R) : Named st h := by
  have hlen : ∀ b ∈ bodyBlocks S R, b.length = 32 :=
    fun b hb => S.blake3.length_of_mem_map_hash hb
  have hdecode : h ∈ Store.decodeBlocks (Store.encodeBlocks (bodyBlocks S R)) := by
    rwa [Store.decodeBlocks_encodeBlocks hlen]
  unfold RowWritten rowBlocks at hrow
  split at hrow
  · obtain ⟨row, hlook, hrow⟩ := Option.bind_eq_some_iff.1 hrow
    split_ifs at hrow with hdel
    exact .inl ⟨_, row, hlook, by simpa using hdel, Option.some.inj hrow ▸ hdecode⟩
  · obtain ⟨row, hlook, hrow⟩ := Option.map_eq_some_iff.1 hrow
    exact .inr ⟨_, row, hlook, hrow ▸ hdecode⟩
  · exact nomatch hrow

/-- What a request that succeeds leaves: if its row is there, its blocks are
kept. -/
def Survives (S : StorageBackend) (R : StorageBackend.Request) (r : Except S3Error Unit)
    (w : Race Blob) : Prop :=
  r = .ok () → RowWritten S R w.1.store → ∀ h ∈ bodyBlocks S R, Kept w h

/-- The last call of the request, which writes the row. -/
theorem safe_writeRow {l : Call} {f : Store → Store} (hr : Receiving (bodyBlocks S R) [] w)
    (hl : ∀ g (s : Site Blob),
      raceRecord .request g l s = { g with written := true })
    (hpending : ∀ st, (f st).pendingDeletions = st.pendingDeletions)
    (hheld : ∀ st h, st.HoldsLocally h → (f st).HoldsLocally h)
    {Q : Except S3Error Unit → Race Blob → Prop}
    (h : ∀ w', (RowWritten S R w'.1.store → ∀ b ∈ bodyBlocks S R, Kept w' b) → Q (.ok ()) w') :
    Safe cfg .request (Site.exec l f) Q w := by
  intro w' hw hinv _
  have hr' := hr.sweepStep hw
  simp only [after, discipline, hl]
  refine ⟨⟨hinv.mono, hinv.fits, hinv.past⟩, ?_, h _ fun hrow b hb => ?_⟩
  · exact ⟨hpending _, rfl, rfl,
      fun hwr => absurd (hr'.unwritten.symm.trans hwr) Bool.false_ne_true⟩
  · obtain ⟨hlooked, hheld', hspared, -⟩ := hr'.kept b hb
    refine ⟨hlooked, hheld _ b hheld', fun hst now hnow t ht => ?_, fun _ => hrow.named hb⟩
    exact hspared hst now hnow t (by rw [← hpending]; exact ht)

/-- A PUT receives its body and writes its row. -/
theorem safe_putObject (hwr : w.2.written = false) {bucket key : Str}
    {body : Option (List (Except Str Bytes))} :
    Safe cfg .request (S.serve (.putObject bucket key body))
      (Survives S (.putObject bucket key body)) w := by
  refine Safe.bind (Safe.bind (Safe.bind
    (safe_diskGuard hwr fun trip w₁ h₁ => ?_)))
  cases trip with
  | some trip => exact fun hr => nomatch hr
  | none =>
    cases body with
    | none => exact fun hr => nomatch hr
    | some body =>
      refine Safe.bind ((safe_receiveBody (S := S) h₁ body).mono fun r w₂ h₂ => ?_)
      cases r with
      | error e => exact fun hr => nomatch hr
      | ok u =>
        refine Safe.bind (Safe.bind
          (receiving_ask h₂.2 (fun _ _ => rfl) fun ts w₃ h₃ => ?_))
        refine safe_writeRow (S := S) (R := .putObject bucket key (some body)) h₃ ?_ ?_ ?_ ?_
        · exact fun _ _ => rfl
        · exact fun _ => rfl
        · exact fun _ _ h => h
        · exact fun w₄ h₄ _ => h₄

/-- So does `upload_part`, after a look at the upload. -/
theorem safe_uploadPart (hwr : w.2.written = false) {bucket : Str}
    {uploadId : Option Uuid} {partNumber : ℤ} {body : Option (List (Except Str Bytes))} :
    Safe cfg .request (S.serve (.uploadPart bucket uploadId partNumber body))
      (Survives S (.uploadPart bucket uploadId partNumber body)) w := by
  refine Safe.bind (Safe.bind (Safe.bind
    (safe_diskGuard hwr fun trip w₁ h₁ => ?_)))
  cases trip with
  | some trip => exact fun hr => nomatch hr
  | none =>
    cases uploadId with
    | none => exact fun hr => nomatch hr
    | some uploadId =>
      refine Safe.bind (Safe.bind (Safe.bind
        (receiving_db h₁ (fun _ _ => rfl) fun w₂ h₂ => ?_)))
      cases w₂.1.store.getMultipartKey bucket uploadId with
      | none => exact fun hr => nomatch hr
      | some key =>
        cases body with
        | none => exact fun hr => nomatch hr
        | some body =>
          refine Safe.bind
            ((safe_receiveBody (S := S) h₂ body).mono fun r w₃ h₃ => ?_)
          cases r with
          | error e => exact fun hr => nomatch hr
          | ok u =>
            refine Safe.bind (safe_writeRow (S := S)
              (R := .uploadPart bucket (some uploadId) partNumber (some body)) h₃.2
              ?_ ?_ ?_ ?_)
            · exact fun _ _ => rfl
            · exact fun _ => rfl
            · exact fun _ _ h => h
            · exact fun w₄ h₄ _ => h₄

/-- **A request that succeeds finds its blocks kept**, wherever the calls of the
sweeps fall. -/
theorem safe_serve (hR : HasBody R) (hwr : w.2.written = false) :
    Safe cfg .request (S.serve R) (Survives S R) w := by
  cases R with
  | putObject bucket key body => exact safe_putObject hwr
  | uploadPart bucket uploadId partNumber body => exact safe_uploadPart hwr
  | _ => exact hR.elim

end Race
end Shardscape
