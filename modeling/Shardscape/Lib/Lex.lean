/-
# Initial parts in the lexicographic order

Strings are compared byte by byte.  The strings that begin with `p` are an interval
of that order: they start at `p` (`le_of_isPrefix`), nothing else lies between
`p` and one of them (`isPrefix_of_le_of_isPrefix`), and the first string past them is
`p` with its last byte incremented (`le_and_lt_iff_isPrefix`).

`find` is the first position of a string in another (`exists_find_le`,
`find_eq_none_iff`).  Where it is found does not depend on what follows
(`find_of_isPrefix`).
-/

import Mathlib.Data.List.Lex
import Mathlib.Order.Cover

namespace Shardscape
namespace Lib

section Order

variable {α : Type*} [LinearOrder α]

/-- Lists are compared by their heads, and by their tails if the heads are equal. -/
theorem cons_le_cons_iff {a b : α} {p q : List α} :
    a :: p ≤ b :: q ↔ a < b ∨ a = b ∧ p ≤ q := by
  rw [le_iff_lt_or_eq, List.cons_lt_cons_iff, List.cons.injEq, le_iff_lt_or_eq]
  tauto

/-- Nothing but the empty list is below the empty list. -/
theorem not_cons_le_nil {a : α} {p : List α} : ¬ a :: p ≤ [] :=
  not_le.2 (List.nil_lt_cons a p)

/-- A beginning of a list is below it. -/
theorem le_of_isPrefix {p l : List α} (h : p <+: l) : p ≤ l := not_lt.1 (List.IsPrefix.le h)

/-- What lies between `p` and a string that begins with `p` begins with `p`. -/
theorem isPrefix_of_le_of_isPrefix {p q l : List α} (hpq : p ≤ q) (hql : q ≤ l) (hpl : p <+: l) :
    p <+: q := by
  induction p generalizing q l with
  | nil => exact List.nil_prefix
  | cons a p ih =>
    obtain ⟨z, rfl⟩ := hpl
    cases q with
    | nil => exact absurd hpq not_cons_le_nil
    | cons b q =>
      rw [List.cons_append] at hql
      rcases cons_le_cons_iff.1 hpq with hab | ⟨rfl, htail⟩
      · rcases cons_le_cons_iff.1 hql with hba | ⟨rfl, -⟩
        · exact absurd hab hba.not_gt
        · exact absurd hab (lt_irrefl _)
      · have hql : q ≤ p ++ z := by
          rcases cons_le_cons_iff.1 hql with h | ⟨-, h⟩
          · exact absurd h (lt_irrefl _)
          · exact h
        exact List.cons_prefix_cons.2 ⟨rfl, ih htail hql (List.prefix_append p z)⟩

/-- A common beginning does not matter. -/
theorem append_lt_append_iff {p x y : List α} : p ++ x < p ++ y ↔ x < y := by
  induction p with
  | nil => rfl
  | cons a p ih => simp only [List.cons_append, List.cons_lt_cons_iff, lt_irrefl, ih,
      false_or, true_and]

/-- A common beginning does not matter to `≤`. -/
theorem append_le_append_iff {p x y : List α} : p ++ x ≤ p ++ y ↔ x ≤ y := by
  rw [← not_lt, append_lt_append_iff, not_lt]

/-- The strings that begin with `p ++ [b]` are those from it up to `p ++ [c]`, where
`c` follows `b`. -/
theorem le_and_lt_iff_isPrefix {b c : α} (hbc : b ⋖ c) (p key : List α) :
    (p ++ [b] ≤ key ∧ key < p ++ [c]) ↔ p ++ [b] <+: key := by
  constructor
  · rintro ⟨hle, hlt⟩
    obtain ⟨z, rfl⟩ : p <+: key := isPrefix_of_le_of_isPrefix
      ((le_of_isPrefix (List.prefix_append p [b])).trans hle) hlt.le (List.prefix_append p [c])
    rw [append_le_append_iff] at hle
    rw [append_lt_append_iff] at hlt
    cases z with
    | nil => exact absurd hle not_cons_le_nil
    | cons x z =>
      have hx : x < c := (List.cons_lt_cons_iff.1 hlt).resolve_right
        fun h => List.not_lt_nil _ h.2
      rcases cons_le_cons_iff.1 hle with hbx | ⟨rfl, -⟩
      · exact absurd hx (hbc.2 hbx)
      · exact List.prefix_append_right_inj p |>.2 (List.prefix_append [b] z)
  · intro h
    refine ⟨le_of_isPrefix h, ?_⟩
    obtain ⟨z, rfl⟩ := h
    rw [List.append_assoc, append_lt_append_iff]
    exact List.cons_lt_cons_iff.2 (.inl hbc.1)

/-- The strings from `p ++ [b]` on that begin with `p`, where `b` is the last byte
there is, begin with `p ++ [b]`. -/
theorem isPrefix_append_top {b : α} (hb : ∀ x, x ≤ b) {p key : List α} (hp : p <+: key)
    (hle : p ++ [b] ≤ key) : p ++ [b] <+: key := by
  obtain ⟨z, rfl⟩ := hp
  rw [append_le_append_iff] at hle
  cases z with
  | nil => exact absurd hle not_cons_le_nil
  | cons x z =>
    rcases cons_le_cons_iff.1 hle with hbx | ⟨rfl, -⟩
    · exact absurd hbx (hb x).not_gt
    · exact List.prefix_append_right_inj p |>.2 (List.prefix_append [b] z)

end Order

section Find

variable {α : Type*} [DecidableEq α]

/-- The first position at which `pat` occurs. -/
def find (pat : List α) : List α → Option ℕ
  | [] => if pat = [] then some 0 else none
  | x :: l => if pat <+: x :: l then some 0 else (find pat l).map (· + 1)

/-- `pat` occurs where it is found. -/
theorem take_append_isPrefix_of_find {pat l : List α} {i : ℕ} (h : find pat l = some i) :
    l.take i ++ pat <+: l := by
  induction l generalizing i with
  | nil =>
    simp only [find, Option.ite_none_right_eq_some, Option.some.injEq] at h
    obtain ⟨rfl, rfl⟩ := h
    exact List.prefix_rfl
  | cons x l ih =>
    rw [find] at h
    split at h
    next hp =>
      cases h
      exact hp
    next hp =>
      obtain ⟨j, hj, rfl⟩ := Option.map_eq_some_iff.1 h
      exact List.cons_prefix_cons.2 ⟨rfl, ih hj⟩

/-- An occurrence begins inside the list. -/
theorem le_length_of_find {pat l : List α} {i : ℕ} (h : find pat l = some i) : i ≤ l.length := by
  induction l generalizing i with
  | nil =>
    simp only [find, Option.ite_none_right_eq_some, Option.some.injEq] at h
    exact h.2.ge
  | cons x l ih =>
    rw [find] at h
    split at h
    next =>
      cases h
      exact Nat.zero_le _
    next =>
      obtain ⟨j, hj, rfl⟩ := Option.map_eq_some_iff.1 h
      exact Nat.succ_le_succ (ih hj)

/-- A string that begins like `l`, up to the end of the first `pat`, has its first
`pat` there as well. -/
theorem find_of_isPrefix {pat l l' : List α} {i : ℕ} (h : find pat l = some i)
    (hl' : l.take i ++ pat <+: l') : find pat l' = some i := by
  induction l generalizing i l' with
  | nil =>
    simp only [find, Option.ite_none_right_eq_some, Option.some.injEq] at h
    obtain ⟨rfl, rfl⟩ := h
    cases l' <;> simp [find]
  | cons x l ih =>
    have hocc := take_append_isPrefix_of_find h
    rw [find] at h
    split at h
    next hp =>
      cases h
      rw [List.take_zero, List.nil_append] at hl'
      cases l' with
      | nil => simp [find, List.prefix_nil.1 hl']
      | cons y l' => rw [find, if_pos hl']
    next hp =>
      obtain ⟨j, hj, rfl⟩ := Option.map_eq_some_iff.1 h
      -- an earlier occurrence in `l'` would be one in `l`
      have hno : ¬ pat <+: l' := by
        intro hpat
        refine hp ((List.prefix_of_prefix_length_le hpat hl' ?_).trans hocc)
        rw [List.length_append]
        omega
      cases l' with
      | nil =>
        rw [List.prefix_nil, List.append_eq_nil_iff] at hl'
        exact absurd (hl'.2 ▸ List.nil_prefix) hno
      | cons y l' =>
        rw [List.take_succ_cons, List.cons_append] at hl'
        rw [find, if_neg hno, ih hj (List.cons_prefix_cons.1 hl').2]
        rfl

/-- Where `pat` occurs, one is found there or before. -/
theorem exists_find_le (before pat after : List α) :
    ∃ i ≤ before.length, find pat (before ++ pat ++ after) = some i := by
  induction before with
  | nil =>
    refine ⟨0, le_rfl, ?_⟩
    cases hl : pat ++ after with
    | nil => rw [List.nil_append, hl, find, if_pos (List.append_eq_nil_iff.1 hl).1]
    | cons x l => rw [List.nil_append, hl, find, if_pos (hl ▸ List.prefix_append pat after)]
  | cons x before ih =>
    obtain ⟨i, hi, hfind⟩ := ih
    rw [List.cons_append, List.cons_append, find]
    split
    · exact ⟨0, Nat.zero_le _, rfl⟩
    · exact ⟨i + 1, Nat.succ_le_succ hi, by rw [hfind, Option.map_some]⟩

/-- Nothing is found exactly if the pattern does not occur. -/
theorem find_eq_none_iff {pat l : List α} : find pat l = none ↔ ¬ pat <:+: l := by
  constructor
  · rintro hnone ⟨before, after, rfl⟩
    obtain ⟨i, -, hi⟩ := exists_find_le before pat after
    cases hnone.symm.trans hi
  · intro hno
    by_contra hsome
    obtain ⟨i, hi⟩ := Option.ne_none_iff_exists'.1 hsome
    obtain ⟨after, hafter⟩ := take_append_isPrefix_of_find hi
    exact hno ⟨l.take i, after, hafter⟩

end Find
end Lib
end Shardscape
