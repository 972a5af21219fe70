/-
# Cutting a list piece by piece

A cutter says where the first piece of a list ends.  The pieces of a list are cut off one
after the other (`Cutter.pieces`).

A list that arrives in parts is cut as it comes: a piece is taken off the front of a buffer
when its end is settled, that is, whatever is still to come cannot move it
(`Cutter.Settled`).  Pieces taken off in this way are those of the whole list
(`Cutter.Takes.pieces_append`), so it makes no difference how the list arrives.
-/

import Mathlib.Data.List.Basic

namespace Shardscape
namespace Lib

/-- Where the first piece of a list ends: past its first element, and inside the list. -/
structure Cutter (α : Type*) where
  cut : List α → ℕ
  cut_pos {l : List α} : l ≠ [] → 0 < cut l
  cut_le (l : List α) : cut l ≤ l.length

namespace Cutter

variable {α : Type*} (c : Cutter α)

/-- The pieces of a list. -/
def pieces (l : List α) : List (List α) :=
  if l.isEmpty then [] else l.take (c.cut l) :: pieces (l.drop (c.cut l))
termination_by l.length
decreasing_by
  rename_i h
  have hne : l ≠ [] := fun hl => h (List.isEmpty_iff.2 hl)
  have hpos := c.cut_pos hne
  have hlen := List.length_pos_of_ne_nil hne
  rw [List.length_drop]
  omega

/-- Of nothing there are no pieces. -/
@[simp] theorem pieces_nil : c.pieces [] = [] := by
  rw [pieces, if_pos List.isEmpty_nil]

/-- One piece is cut off, and then those of the rest. -/
theorem pieces_of_ne_nil {l : List α} (h : l ≠ []) :
    c.pieces l = l.take (c.cut l) :: c.pieces (l.drop (c.cut l)) := by
  rw [pieces, if_neg (mt List.isEmpty_iff.1 h)]

/-- Put together, the pieces are the list. -/
theorem flatten_pieces (l : List α) : (c.pieces l).flatten = l := by
  fun_induction pieces c l with
  | case1 l h => exact (List.isEmpty_iff.1 h).symm
  | case2 l h ih => rw [List.flatten_cons, ih, List.take_append_drop]

/-- A piece is as long as the cut of some list says. -/
theorem exists_of_mem_pieces {l p : List α} (hp : p ∈ c.pieces l) :
    ∃ l', l' ≠ [] ∧ p = l'.take (c.cut l') := by
  fun_induction pieces c l with
  | case1 l h => exact absurd hp List.not_mem_nil
  | case2 l h ih =>
    rcases List.mem_cons.1 hp with rfl | hp
    · exact ⟨l, mt List.isEmpty_iff.2 h, rfl⟩
    · exact ih hp

/-- A piece that is not the last leaves a rest. -/
theorem exists_of_mem_dropLast_pieces {l p : List α} (hp : p ∈ (c.pieces l).dropLast) :
    ∃ l', c.cut l' < l'.length ∧ p = l'.take (c.cut l') := by
  fun_induction pieces c l with
  | case1 l h => exact absurd hp List.not_mem_nil
  | case2 l h ih =>
    cases hrest : c.pieces (l.drop (c.cut l)) with
    | nil =>
      rw [hrest] at hp
      exact absurd hp List.not_mem_nil
    | cons q rest =>
      rw [hrest, List.dropLast_cons_cons] at hp
      rcases List.mem_cons.1 hp with rfl | hp
      · refine ⟨l, ?_, rfl⟩
        by_contra hle
        rw [List.drop_eq_nil_of_le (Nat.le_of_not_lt hle), pieces_nil] at hrest
        exact nomatch hrest
      · exact ih (hrest ▸ hp)

/-- The first piece of `l` is the same whatever comes after `l`. -/
def Settled (l : List α) : Prop := ∀ more, c.cut (l ++ more) = c.cut l

/-- Pieces taken off a buffer, each of them settled, and the buffer left. -/
inductive Takes : List α → List (List α) → List α → Prop
  | stop (l : List α) : Takes l [] l
  | take {l : List α} {ps : List (List α)} {rest : List α} (hne : l ≠ []) (hsettled : c.Settled l)
      (h : Takes (l.drop (c.cut l)) ps rest) : Takes l (l.take (c.cut l) :: ps) rest

variable {c}

/-- A settled piece of `n` elements taken off. -/
theorem Takes.take_of_cut_eq {l rest : List α} {ps : List (List α)} {n : ℕ} (hcut : c.cut l = n)
    (hne : l ≠ []) (hsettled : c.Settled l) (h : c.Takes (l.drop n) ps rest) :
    c.Takes l (l.take n :: ps) rest := by
  subst hcut
  exact .take hne hsettled h

/-- **Pieces taken off are pieces of the whole.** -/
theorem Takes.pieces_append {l rest : List α} {ps : List (List α)} (h : c.Takes l ps rest)
    (more : List α) : c.pieces (l ++ more) = ps ++ c.pieces (rest ++ more) := by
  induction h with
  | stop l => rfl
  | take hne hsettled _ ih =>
    rw [c.pieces_of_ne_nil (List.append_ne_nil_of_left_ne_nil hne _), hsettled more,
      List.take_append_of_le_length (c.cut_le _), List.drop_append_of_le_length (c.cut_le _), ih,
      List.cons_append]

/-- A buffer that is one piece. -/
theorem pieces_of_cut_eq {l : List α} (h : c.cut l = l.length) (hne : l ≠ []) :
    c.pieces l = [l] := by
  rw [c.pieces_of_ne_nil hne, h, List.take_length, List.drop_length, pieces_nil]

end Cutter
end Lib
end Shardscape
