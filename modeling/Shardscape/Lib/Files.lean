/-
# Names, files, and atomic renames

The part of a POSIX file system that writing a file under a temporary name needs.  A name leads
to a file (an inode) or to nothing, and files have contents.  Opening for writing empties the
file a name leads to, or makes a new one; a write puts bytes at an offset, filling a gap with
zeros; `rename` moves a name over another in one step.  A file that has lost its name can still
be read and written by who has it open, and its number is not given out again.
-/

import Mathlib.Logic.Function.Basic
import Shardscape.Lib.Bytes

namespace Shardscape
namespace Lib

open Function

/-- Names and files; `fresh` is the number of the next new file. -/
structure Files (ν : Type*) where
  names : ν → Option ℕ
  contents : ℕ → Bytes
  fresh : ℕ
  named_lt : ∀ a i, names a = some i → i < fresh

namespace Files

variable {ν : Type*}

/-! ### Reading and writing -/

/-- Bytes put at an offset; a gap before them is filled with zeros, and no bytes change nothing. -/
def overwrite (old : Bytes) (offset : ℕ) (piece : Bytes) : Bytes :=
  if piece = [] then old
  else old.take offset ++ List.replicate (offset - old.length) 0 ++ piece ++
    old.drop (offset + piece.length)

/-- `write` at an offset. -/
def writeAt (f : Files ν) (i offset : ℕ) (piece : Bytes) : Files ν :=
  { f with contents := update f.contents i (overwrite (f.contents i) offset piece) }

/-- `read` at an offset: at most `n` bytes, none at the end of the file. -/
def readAt (f : Files ν) (i offset n : ℕ) : Bytes := ((f.contents i).drop offset).take n

/-- A write changes its file. -/
theorem contents_writeAt_self (f : Files ν) (i offset : ℕ) (piece : Bytes) :
    (f.writeAt i offset piece).contents i = overwrite (f.contents i) offset piece :=
  update_self _ _ _

/-- A write changes no other file. -/
theorem contents_writeAt_of_ne (f : Files ν) {i j : ℕ} (offset : ℕ) (piece : Bytes) (hj : j ≠ i) :
    (f.writeAt i offset piece).contents j = f.contents j :=
  update_of_ne hj _ _

/-- A write at the end of a file. -/
theorem overwrite_length (old piece : Bytes) : overwrite old old.length piece = old ++ piece := by
  rw [overwrite]
  split_ifs with hnil
  · rw [hnil, List.append_nil]
  · rw [List.take_length, Nat.sub_self, List.replicate_zero, List.append_nil,
      List.drop_eq_nil_of_le (Nat.le_add_right _ _), List.append_nil]

/-- The next piece of some bytes. -/
theorem take_append_piece (data : Bytes) (offset n : ℕ) :
    data.take offset ++ (data.drop offset).take n =
      data.take (offset + ((data.drop offset).take n).length) := by
  rw [List.take_add, List.length_take, ← List.take_eq_take_min]

/-- Bytes are written one piece after the other. -/
theorem overwrite_take {data : Bytes} {offset : ℕ} (h : offset ≤ data.length) (n : ℕ) :
    overwrite (data.take offset) offset ((data.drop offset).take n) =
      data.take (offset + ((data.drop offset).take n).length) := by
  have hend := overwrite_length (data.take offset) ((data.drop offset).take n)
  rw [List.length_take_of_le h] at hend
  rw [hend, take_append_piece]

variable [DecidableEq ν]

/-! ### Opening and renaming -/

/-- One more name for a file that has been given out. -/
theorem named_lt_update {names : ν → Option ℕ} {fresh fresh' : ℕ} {a : ν} {file : Option ℕ}
    (hnames : ∀ b i, names b = some i → i < fresh) (hle : fresh ≤ fresh')
    (hfile : ∀ i, file = some i → i < fresh') (b : ν) (i : ℕ)
    (h : update names a file b = some i) : i < fresh' := by
  by_cases hb : b = a
  · rw [hb, update_self] at h
    exact hfile i h
  · rw [update_of_ne hb] at h
    exact (hnames b i h).trans_le hle

/-- `open` with `O_CREAT | O_TRUNC`: the file is empty. -/
def create (f : Files ν) (a : ν) : Files ν × ℕ :=
  match f.names a with
  | some i => ({ f with contents := update f.contents i [] }, i)
  | none =>
    ({ names := update f.names a (some f.fresh)
       contents := update f.contents f.fresh []
       fresh := f.fresh + 1
       named_lt := named_lt_update f.named_lt (Nat.le_succ _) fun _ h =>
         Option.some.inj h ▸ Nat.lt_succ_self _ },
      f.fresh)

/-- `rename`: `none` where there is nothing under the name.  Two names of one file stay. -/
def rename (f : Files ν) (a b : ν) : Option (Files ν) :=
  match h : f.names a with
  | none => none
  | some i =>
    if f.names b = some i then some f
    else some { f with
      names := update (update f.names b (some i)) a none
      named_lt := named_lt_update
        (named_lt_update f.named_lt le_rfl fun _ hi => Option.some.inj hi ▸ f.named_lt a i h)
        le_rfl fun i hi => absurd hi (Option.some_ne_none i).symm }

variable {f : Files ν} {a b : ν} {i j : ℕ}

/-- After `create` the name stands for the file that is returned. -/
@[simp] theorem names_create_self (f : Files ν) (a : ν) :
    (f.create a).1.names a = some (f.create a).2 := by
  unfold create
  split
  · assumption
  · exact update_self _ _ _

/-- No other name moves. -/
theorem names_create_of_ne (hb : b ≠ a) : (f.create a).1.names b = f.names b := by
  unfold create
  split
  · rfl
  · exact update_of_ne hb _ _

/-- The file of a `create` is empty, whether it was there before or not. -/
@[simp] theorem contents_create_self (f : Files ν) (a : ν) :
    (f.create a).1.contents (f.create a).2 = [] := by
  unfold create
  split <;> exact update_self _ _ _

/-- The other files keep their bytes. -/
theorem contents_create_of_ne (hj : j ≠ (f.create a).2) :
    (f.create a).1.contents j = f.contents j := by
  unfold create at hj ⊢
  split at hj <;> exact update_of_ne hj _ _

/-- Numbers of files are not given twice. -/
theorem fresh_le_create (f : Files ν) (a : ν) : f.fresh ≤ (f.create a).1.fresh := by
  unfold create
  split
  · exact le_rfl
  · exact Nat.le_succ _

/-- The file that is opened is the one under the name, or a new one. -/
theorem ne_create (hj : j < f.fresh) (hname : f.names a ≠ some j) : j ≠ (f.create a).2 := by
  unfold create
  split
  · next i hi =>
      rintro rfl
      exact hname hi
  · exact hj.ne

/-- A name of a file of its own moves over another. -/
theorem rename_eq_some (ha : f.names a = some i) (hb : f.names b ≠ some i) :
    ∃ f', f.rename a b = some f' ∧ f'.contents = f.contents ∧ f'.fresh = f.fresh ∧
      f'.names = update (update f.names b (some i)) a none := by
  unfold rename
  split
  · next hnone => rw [hnone] at ha; cases ha
  · next k hk =>
      obtain rfl := Option.some.inj (hk.symm.trans ha)
      rw [if_neg hb]
      exact ⟨_, rfl, rfl, rfl, rfl⟩

/-- A name that is renamed to leads to a file. -/
theorem names_rename_ne_none {f' : Files ν} (h : f.rename a b = some f') (hab : a ≠ b) :
    f'.names b ≠ none := by
  unfold rename at h
  split at h
  · cases h
  · split_ifs at h with hb
    · obtain rfl := Option.some.inj h
      rw [hb]
      rintro ⟨⟩
    · obtain rfl := Option.some.inj h
      dsimp only
      rw [update_of_ne hab.symm, update_self]
      rintro ⟨⟩

end Files
end Lib
end Shardscape
