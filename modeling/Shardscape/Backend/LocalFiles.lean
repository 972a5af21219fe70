/-
# Two writers, one temporary file

`src/storage.rs`, `LocalBlob::put` and `LocalBlob::get`: a block is written to a temporary file
that is then renamed, "so a reader never sees a partial block".

The temporary name is made from the hash alone, so two puts of one block share it: the second
empties the file the first is writing.  If the first renames it at that moment, readers find an
empty block, and when the second comes to its rename there is nothing left to rename
(`reader_sees_partial_block`).  While no put opens the temporary file that another has open, the
comment holds: whatever the order of the steps, every get finds nothing or the whole block, and
every put succeeds (`no_partial_block`).  What the directory shows is then that of `localBlob`,
where a put is one step (`visible_step`).
-/

import Mathlib.Data.Fintype.Basic
import Shardscape.Backend.Site
import Shardscape.Lib.Files

namespace Shardscape

open Lib Function

/-- `path_for` of a block, and its temporary name. -/
inductive BlockName where
  | file
  | temp
  deriving DecidableEq

/-- A call of `put`: before its first step, with the temporary file open, and at its end. -/
inductive PutCall where
  | idle
  | writing (inode offset : ℕ)
  | ok
  | failed
  deriving DecidableEq

/-- A call of `get`: before its first step, with the file open, and at its end. -/
inductive GetCall where
  | idle
  | reading (inode : ℕ) (got : Bytes)
  | notFound
  | returned (data : Bytes)
  deriving DecidableEq

/-- The directory entries of one block, and the calls for it. -/
structure BlockDir (ι κ : Type*) where
  files : Files BlockName
  puts : ι → PutCall
  gets : κ → GetCall

/-- The steps of the calls; a write and a read are of at most `n` bytes. -/
inductive FileStep (ι κ : Type*) where
  | createTemp (w : ι)
  | write (w : ι) (n : ℕ)
  | rename (w : ι)
  | openFile (r : κ)
  | read (r : κ) (n : ℕ)

namespace BlockDir

variable {ι κ : Type*} [DecidableEq ι] [DecidableEq κ]

/-- One step, of a put of `data` or a get; nothing happens if the call is not there yet. -/
def step (data : Bytes) (d : BlockDir ι κ) : FileStep ι κ → BlockDir ι κ
  | .createTemp w =>
    match d.puts w with
    | .idle =>
      { d with
        files := (d.files.create .temp).1
        puts := update d.puts w (.writing (d.files.create .temp).2 0) }
    | _ => d
  | .write w n =>
    match d.puts w with
    | .writing i offset =>
      let piece := (data.drop offset).take n
      { d with
        files := d.files.writeAt i offset piece
        puts := update d.puts w (.writing i (offset + piece.length)) }
    | _ => d
  | .rename w =>
    match d.puts w with
    | .writing _ offset =>
      if offset < data.length then d
      else
        match d.files.rename .temp .file with
        | some files => { d with files := files, puts := update d.puts w .ok }
        | none => { d with puts := update d.puts w .failed }
    | _ => d
  | .openFile r =>
    match d.gets r with
    | .idle =>
      match d.files.names .file with
      | some i => { d with gets := update d.gets r (.reading i []) }
      | none => { d with gets := update d.gets r .notFound }
    | _ => d
  | .read r n =>
    match d.gets r with
    | .reading i got =>
      if n = 0 then d
      else
        let piece := d.files.readAt i got.length n
        -- a read of no bytes is the end of the file
        if piece = [] then { d with gets := update d.gets r (.returned got) }
        else { d with gets := update d.gets r (.reading i (got ++ piece)) }
    | _ => d

/-- Before any call: the block is there or not, and a crash may have left a temporary file. -/
def start (data : Bytes) (stored : Bool) (leftover : Option Bytes) : BlockDir ι κ where
  files :=
    { names := fun
        | .file => if stored then some 1 else none
        | .temp => leftover.map fun _ => 0
      contents := fun i => if i = 0 then leftover.getD [] else data
      fresh := 2
      named_lt := by
        rintro (_ | _) i hi
        · dsimp only at hi
          split_ifs at hi
          rw [Option.some.injEq] at hi
          omega
        · obtain ⟨_, -, rfl⟩ := Option.map_eq_some_iff.1 hi
          decide }
  puts _ := .idle
  gets _ := .idle

/-- A put has the temporary file open. -/
def Writing (d : BlockDir ι κ) (w : ι) : Prop := ∃ i offset, d.puts w = .writing i offset

instance (d : BlockDir ι κ) (w : ι) : Decidable (d.Writing w) :=
  match h : d.puts w with
  | .writing i offset => isTrue ⟨i, offset, h⟩
  | .idle | .ok | .failed => isFalse fun ⟨i, offset, hw⟩ => by rw [h] at hw; cases hw

/-- No put opens the temporary file while another has it open. -/
def OneAtATime (d : BlockDir ι κ) : FileStep ι κ → Prop
  | .createTemp w => ∀ w', w' ≠ w → ¬ d.Writing w'
  | _ => True

instance [Fintype ι] (d : BlockDir ι κ) : ∀ e, Decidable (d.OneAtATime e)
  | .createTemp w => inferInstanceAs (Decidable (∀ w', w' ≠ w → ¬ d.Writing w'))
  | .write _ _ | .rename _ | .openFile _ | .read _ _ => isTrue trivial

/-- **What `put` and `get` promise**: a get that returns bytes returns the block, no put has
failed, and one that has written everything succeeds with its next step. -/
structure Sound (data : Bytes) (d : BlockDir ι κ) : Prop where
  gets : ∀ r bytes, d.gets r = .returned bytes → bytes = data
  puts : ∀ w, d.puts w ≠ .failed
  renames : ∀ w i offset, d.puts w = .writing i offset → data.length ≤ offset →
    (d.step data (.rename w)).puts w = .ok

/-! ### The invariant -/

/-- A file that readers may have: it holds the block, and nobody writes it. -/
structure Published (data : Bytes) (f : Files BlockName) (i : ℕ) : Prop where
  contents : f.contents i = data
  not_temp : f.names .temp ≠ some i
  lt_fresh : i < f.fresh

/-- The put that writes has the temporary file, filled as far as it has come. -/
structure Filling (data : Bytes) (f : Files BlockName) (i offset : ℕ) : Prop where
  name : f.names .temp = some i
  contents : f.contents i = data.take offset
  le : offset ≤ data.length

/-- What holds while puts take turns. -/
structure Inv (data : Bytes) (d : BlockDir ι κ) : Prop where
  file : ∀ i, d.files.names .file = some i → Published data d.files i
  reader : ∀ r i got, d.gets r = .reading i got → Published data d.files i ∧ got <+: data
  returned : ∀ r bytes, d.gets r = .returned bytes → bytes = data
  writer : ∀ w i offset, d.puts w = .writing i offset → Filling data d.files i offset
  alone : ∀ w w', d.Writing w → d.Writing w' → w = w'
  succeeded : ∀ w, d.puts w ≠ .failed

variable {data : Bytes} {d : BlockDir ι κ}

/-- The invariant says what a reader may find. -/
theorem Inv.sound (h : Inv data d) : d.Sound data where
  gets := h.returned
  puts := h.succeeded
  renames w i offset hw hle := by
    have hfill := h.writer w i offset hw
    have hfile : d.files.names .file ≠ some i := fun hi => (h.file i hi).not_temp hfill.name
    obtain ⟨f, hf, -⟩ := Files.rename_eq_some hfill.name hfile
    simp only [step, hw, if_neg (not_lt.2 hle), hf]
    exact update_self _ _ _

omit [DecidableEq ι] [DecidableEq κ] in
/-- It holds of a directory with the whole file or none, and with any leftover. -/
theorem inv_start (data : Bytes) (stored : Bool) (leftover : Option Bytes) :
    Inv data (start data stored leftover : BlockDir ι κ) where
  file i hi := by
    simp only [start] at hi
    split_ifs at hi
    rw [Option.some.injEq] at hi
    subst hi
    refine ⟨rfl, fun htemp => ?_, (by decide : 1 < 2)⟩
    obtain ⟨_, -, hzero⟩ := Option.map_eq_some_iff.1 htemp
    cases hzero
  reader _ _ _ h := by cases h
  returned _ _ h := by cases h
  writer _ _ _ h := by cases h
  alone := by rintro w w' ⟨i, offset, ⟨⟩⟩
  succeeded _ h := by cases h

/-! ### The steps -/

variable {f : Files BlockName} {i j : ℕ}

/-- A new writer empties no file that readers have. -/
theorem Published.create (h : Published data f i) : Published data (f.create .temp).1 i := by
  have hne := Files.ne_create h.lt_fresh h.not_temp
  refine ⟨?_, fun htemp => ?_, h.lt_fresh.trans_le (Files.fresh_le_create f .temp)⟩
  · rw [Files.contents_create_of_ne hne, h.contents]
  · rw [Files.names_create_self, Option.some.injEq] at htemp
    exact hne htemp.symm

/-- Nor does a writer write one. -/
theorem Published.writeAt (h : Published data f i) (hj : f.names .temp = some j) (offset : ℕ)
    (piece : Bytes) : Published data (f.writeAt j offset piece) i := by
  have hne : i ≠ j := by
    rintro rfl
    exact h.not_temp hj
  exact ⟨(Files.contents_writeAt_of_ne f offset piece hne).trans h.contents, h.not_temp, h.lt_fresh⟩

namespace Inv

variable (h : Inv data d)
include h

omit [DecidableEq κ] in
/-- The step of a put while no other put has the temporary file open. -/
theorem putStep {w : ι} (hone : ∀ w', w' ≠ w → ¬ d.Writing w')
    {files : Files BlockName} {c : PutCall}
    (hkept : ∀ i, Published data d.files i → Published data files i)
    (hfile : ∀ i, files.names .file = some i → Published data files i)
    (hfill : ∀ i offset, c = .writing i offset → Filling data files i offset) (hc : c ≠ .failed) :
    Inv data { d with files := files, puts := update d.puts w c } := by
  have hother : ∀ w', w' ≠ w → ∀ c', update d.puts w c w' = c' → d.puts w' = c' := by
    intro w' hne c' hw'
    rwa [update_of_ne hne] at hw'
  have honly : ∀ w' i offset, update d.puts w c w' = .writing i offset → w' = w := by
    intro w' i offset hw'
    by_contra hne
    exact hone w' hne ⟨i, offset, hother w' hne _ hw'⟩
  refine ⟨hfile, fun r i got hr => ?_, h.returned, fun w' i offset hw' => ?_, ?_, fun w' hw' => ?_⟩
  · exact ⟨hkept i (h.reader r i got hr).1, (h.reader r i got hr).2⟩
  · have heq := honly w' i offset hw'
    dsimp only at hw'
    rw [heq, update_self] at hw'
    exact hfill i offset hw'
  · rintro w₁ w₂ ⟨i₁, offset₁, h₁⟩ ⟨i₂, offset₂, h₂⟩
    exact (honly w₁ i₁ offset₁ h₁).trans (honly w₂ i₂ offset₂ h₂).symm
  · by_cases heq : w' = w
    · dsimp only at hw'
      rw [heq, update_self] at hw'
      exact hc hw'
    · exact h.succeeded w' (hother w' heq _ hw')

omit [DecidableEq ι] in
/-- The step of a get. -/
theorem getStep (r : κ) {c : GetCall}
    (hreading : ∀ i got, c = .reading i got → Published data d.files i ∧ got <+: data)
    (hreturned : ∀ bytes, c = .returned bytes → bytes = data) :
    Inv data { d with gets := update d.gets r c } := by
  refine ⟨h.file, fun r' i got hr' => ?_, fun r' bytes hr' => ?_, h.writer, h.alone, h.succeeded⟩
  · dsimp only at hr'
    by_cases heq : r' = r
    · rw [heq, update_self] at hr'
      exact hreading i got hr'
    · rw [update_of_ne heq] at hr'
      exact h.reader r' i got hr'
  · dsimp only at hr'
    by_cases heq : r' = r
    · rw [heq, update_self] at hr'
      exact hreturned bytes hr'
    · rw [update_of_ne heq] at hr'
      exact h.returned r' bytes hr'

/-- A put opens the temporary file. -/
theorem createTemp {w : ι} (hone : ∀ w', w' ≠ w → ¬ d.Writing w') :
    Inv data (d.step data (.createTemp w)) := by
  simp only [step]
  split
  · refine h.putStep hone (fun i hi => hi.create) (fun i hi => ?_) ?_ (by rintro ⟨⟩)
    · rw [Files.names_create_of_ne (by decide)] at hi
      exact (h.file i hi).create
    · rintro i offset ⟨⟩
      exact ⟨Files.names_create_self _ _, Files.contents_create_self _ _, Nat.zero_le _⟩
  · exact h

/-- A put writes its next piece. -/
theorem write (w : ι) (n : ℕ) : Inv data (d.step data (.write w n)) := by
  simp only [step]
  split
  · next i offset hw =>
      have hfill := h.writer w i offset hw
      have hone : ∀ w', w' ≠ w → ¬ d.Writing w' :=
        fun w' hne hw' => hne (h.alone w' w hw' ⟨i, offset, hw⟩)
      refine h.putStep hone (fun j hj => hj.writeAt hfill.name _ _)
        (fun j hj => (h.file j hj).writeAt hfill.name _ _) ?_ (by rintro ⟨⟩)
      rintro j offset' ⟨⟩
      refine ⟨hfill.name, ?_, ?_⟩
      · rw [Files.contents_writeAt_self, hfill.contents, Files.overwrite_take hfill.le]
      · have hle := hfill.le
        rw [List.length_take, List.length_drop]
        omega
  · exact h

/-- A put that has written everything renames the temporary file, which is then complete. -/
theorem rename (w : ι) : Inv data (d.step data (.rename w)) := by
  simp only [step]
  split
  · next i offset hw =>
      split_ifs with hpending
      · exact h
      · have hfill := h.writer w i offset hw
        have hone : ∀ w', w' ≠ w → ¬ d.Writing w' :=
          fun w' hne hw' => hne (h.alone w' w hw' ⟨i, offset, hw⟩)
        have hfile : d.files.names .file ≠ some i := fun hi => (h.file i hi).not_temp hfill.name
        obtain ⟨f, hf, hcontents, hfresh, hnames⟩ := Files.rename_eq_some hfill.name hfile
        have hcomplete : d.files.contents i = data := by
          rw [hfill.contents, List.take_of_length_le (not_lt.1 hpending)]
        have htemp : f.names .temp = none := by rw [hnames, update_self]
        rw [hf]
        refine h.putStep hone (fun j hj => ?_) (fun j hj => ?_) (by rintro j offset' ⟨⟩)
          (by rintro ⟨⟩)
        · exact ⟨hcontents ▸ hj.contents, by rw [htemp]; rintro ⟨⟩, hfresh ▸ hj.lt_fresh⟩
        · rw [hnames, update_of_ne (by decide), update_self,
            Option.some.injEq] at hj
          subst hj
          exact ⟨hcontents ▸ hcomplete, by rw [htemp]; rintro ⟨⟩,
            hfresh ▸ d.files.named_lt _ _ hfill.name⟩
  · exact h

/-- A get opens the file. -/
theorem openFile (r : κ) : Inv data (d.step data (.openFile r)) := by
  simp only [step]
  split
  · split
    · next i hi =>
        refine h.getStep r ?_ (by rintro bytes ⟨⟩)
        rintro j got ⟨⟩
        exact ⟨h.file i hi, List.nil_prefix⟩
    · exact h.getStep r (by rintro i got ⟨⟩) (by rintro bytes ⟨⟩)
  · exact h

/-- A get reads on; at the end of the file it has the block. -/
theorem read (r : κ) (n : ℕ) : Inv data (d.step data (.read r n)) := by
  simp only [step]
  split
  · next i got hr =>
      obtain ⟨hpublished, hgot⟩ := h.reader r i got hr
      have hpiece : d.files.readAt i got.length n = (data.drop got.length).take n := by
        rw [Files.readAt, hpublished.contents]
      obtain ⟨rest, rfl⟩ := hgot
      rw [List.drop_left] at hpiece
      rw [hpiece]
      split_ifs with hzero hend
      · exact h
      · refine h.getStep r (by rintro j got' ⟨⟩) ?_
        rintro bytes ⟨⟩
        rw [(List.take_eq_nil_iff.1 hend).resolve_left hzero, List.append_nil]
      · refine h.getStep r ?_ (by rintro bytes ⟨⟩)
        rintro j got' ⟨⟩
        exact ⟨hpublished, (List.prefix_append_right_inj got).2 (List.take_prefix n rest)⟩
  · exact h

/-- One step while puts take turns. -/
theorem step {e : FileStep ι κ} (hone : d.OneAtATime e) :
    Inv data (d.step data e) := by
  cases e with
  | createTemp w => exact h.createTemp hone
  | write w n => exact h.write w n
  | rename w => exact h.rename w
  | openFile r => exact h.openFile r
  | read r n => exact h.read r n

end Inv

/-- **No reader sees a partial block**, and no put fails, in every state of every run in which no
put opens the temporary file while another has it open. -/
theorem no_partial_block (data : Bytes) (stored : Bool) (leftover : Option Bytes)
    (steps : List (FileStep ι κ))
    (hone : ∀ p ∈ trace (BlockDir.step data) (start data stored leftover) steps,
      OneAtATime p.1 p.2) :
    (∀ p ∈ trace (BlockDir.step data) (start data stored leftover) steps, Sound data p.1) ∧
      Sound data (steps.foldl (BlockDir.step data) (start data stored leftover)) := by
  have hstep : ∀ (d : BlockDir ι κ) (e : FileStep ι κ), Inv data d → d.OneAtATime e →
      Inv data (d.step data e) := fun _ _ h hone => h.step hone
  have hstart := inv_start (ι := ι) (κ := κ) data stored leftover
  exact ⟨fun p hp => (invariant_of_trace hstep hstart hone p hp).sound,
    (invariant_at_end hstep hstart hone).sound⟩

/-- Two puts one after the other, with a get that comes too early and one that has the first file
open while the second put replaces it. -/
def takingTurns : List (FileStep Bool Bool) :=
  [.createTemp false, .openFile false, .write false 1, .write false 1, .rename false,
    .createTemp true, .openFile true, .read true 1, .write true 2, .rename true, .read true 5,
    .read true 5]

/-- `no_partial_block` on that run, over what a crash left behind. -/
theorem no_partial_block_takingTurns :
    Sound [7, 8] (takingTurns.foldl (BlockDir.step [7, 8]) (start [7, 8] false (some [9]))) :=
  (no_partial_block [7, 8] false (some [9]) takingTurns (by decide)).2

/-- The second put empties the temporary file before the first renames it. -/
def overlapping : List (FileStep Bool Unit) :=
  [.createTemp false, .write false 1, .createTemp true, .rename false, .openFile (), .read () 1,
    .write true 1, .rename true]

/-- **A reader sees a partial block**: the get returns no bytes of the one there is, and the second
put fails. -/
theorem reader_sees_partial_block :
    ((overlapping.foldl (BlockDir.step [7]) (start [7] false none)).gets () = .returned [] ∧
      (overlapping.foldl (BlockDir.step [7]) (start [7] false none)).puts true = .failed) ∧
      ¬ ∀ steps : List (FileStep Bool Unit),
        Sound [7] (steps.foldl (BlockDir.step [7]) (start [7] false none)) := by
  refine ⟨by decide, fun h => ?_⟩
  have hwhole := (h overlapping).gets () [] (by decide)
  cases hwhole

/-! ### What the directory shows -/

/-- The bytes under the name of the block. -/
def visible (d : BlockDir ι κ) : Option Bytes := (d.files.names .file).map d.files.contents

/-- The name of the block is never taken away. -/
theorem names_file_of_step {e : FileStep ι κ} (h : (d.step data e).files.names .file = none) :
    d.files.names .file = none := by
  cases e with
  | createTemp w =>
    simp only [step] at h
    split at h
    · rwa [Files.names_create_of_ne (by decide)] at h
    · exact h
  | write w n =>
    simp only [step] at h
    split at h <;> exact h
  | rename w =>
    simp only [step] at h
    split at h
    · split_ifs at h
      · exact h
      · split at h
        · next files hfiles => exact absurd h (Files.names_rename_ne_none hfiles (by decide))
        · exact h
    · exact h
  | openFile r =>
    simp only [step] at h
    split at h
    · split at h <;> exact h
    · exact h
  | read r n =>
    simp only [step] at h
    split at h
    · split_ifs at h <;> exact h
    · exact h

/-- **The directory is that of `localBlob`**: while puts take turns, a step changes nothing that
shows, or it does what a put of `localBlob` does at once. -/
theorem visible_step (h : Inv data d) {e : FileStep ι κ} (hone : d.OneAtATime e) {hash : Bytes}
    {t : Table Bytes Bytes} (ht : t.lookup hash = d.visible) :
    t.lookup hash = (d.step data e).visible ∨
      AList.lookup hash (localBlob.put t hash data).1 = (d.step data e).visible := by
  cases hname : (d.step data e).files.names .file with
  | none =>
    refine Or.inl ?_
    rw [ht, visible, visible, names_file_of_step hname, hname]
    rfl
  | some i =>
    refine Or.inr ?_
    rw [visible, hname, Option.map_some, ((h.step hone).file i hname).contents]
    exact (Table.lookup_insert _ _ _ _).trans (if_pos rfl)

end BlockDir
end Shardscape
