/-
# Lists sorted by a key

A query with `ORDER BY key` over rows with distinct keys returns the one list of
those rows in strictly ascending key order: `sortBy` computes it, and
`eq_of_mem_iff` says there is only one, so two queries that select the same rows
return the same list whatever order their tables are in.
-/

import Mathlib.Data.List.Sort

namespace Shardscape
namespace Lib

variable {α κ : Type*} [LinearOrder κ] {key : α → κ}

/-- The rows in ascending order of their keys. -/
def sortBy (key : α → κ) (l : List α) : List α := l.insertionSort fun a b => key a ≤ key b

/-- Strictly ascending keys. -/
def SortedBy (key : α → κ) (l : List α) : Prop := l.Pairwise fun a b => key a < key b

variable {l : List α}

/-- To sort changes no member. -/
@[simp] theorem mem_sortBy {a : α} : a ∈ sortBy key l ↔ a ∈ l :=
  List.mem_insertionSort _

/-- Sorting what was mapped, under the same keys. -/
theorem sortBy_map {β : Type*} {key' : β → κ} {f : α → β} (h : ∀ a, key' (f a) = key a)
    (l : List α) : sortBy key' (l.map f) = (sortBy key l).map f := by
  refine (List.map_insertionSort (fun a b => key a ≤ key b)
    (fun a b => key' a ≤ key' b) f l ?_).symm
  intro a _ b _
  rw [h a, h b]

/-- Sorting rows with distinct keys. -/
theorem sortedBy_sortBy (h : (l.map key).Nodup) : SortedBy key (sortBy key l) := by
  have : IsTrans α fun a b => key a ≤ key b := ⟨fun _ _ _ => le_trans⟩
  have : Std.Total fun a b : α => key a ≤ key b := ⟨fun a b => le_total _ _⟩
  have hle : (sortBy key l).Pairwise fun a b => key a ≤ key b := List.pairwise_insertionSort _ l
  have hne : (sortBy key l).Pairwise fun a b => key a ≠ key b := by
    rw [← List.pairwise_map]
    exact ((List.perm_insertionSort _ l).map key).nodup_iff.2 h
  exact hle.imp₂ (fun _ _ => lt_of_le_of_ne) hne

/-- Rows in strictly ascending key order are determined by which rows they are. -/
theorem eq_of_mem_iff {l l' : List α} (h : SortedBy key l) (h' : SortedBy key l')
    (hmem : ∀ a, a ∈ l ↔ a ∈ l') : l = l' := by
  have : Std.Irrefl fun a b : α => key a < key b := ⟨fun a => lt_irrefl (key a)⟩
  have : Std.Antisymm fun a b : α => key a < key b := ⟨fun a b h₁ h₂ => absurd h₁ h₂.not_gt⟩
  exact List.Pairwise.eq_of_mem_iff h h' hmem

namespace SortedBy

variable (h : SortedBy key l)
include h

/-- Selecting rows keeps them sorted. -/
theorem filter (p : α → Bool) :
    SortedBy key (l.filter p) :=
  List.Pairwise.filter p h

/-- A condition that a row meets only if all rows before it do cuts the list in two. -/
theorem filter_append_filter_not {p : α → Bool}
    (hp : ∀ a ∈ l, ∀ b ∈ l, key a < key b → p b = true → p a = true) :
    l.filter p ++ l.filter (fun a => !p a) = l := by
  induction l with
  | nil => rfl
  | cons a l ih =>
    obtain ⟨ha, hl⟩ := List.pairwise_cons.1 h
    have htail : l.filter p ++ l.filter (fun b => !p b) = l :=
      ih hl fun b hb c hc => hp b (List.mem_cons_of_mem a hb) c (List.mem_cons_of_mem a hc)
    cases hpa : p a with
    | true => simpa [hpa] using htail
    | false =>
      -- no later row meets the condition, so the first part is empty
      have hnone : l.filter p = [] := by
        refine List.filter_eq_nil_iff.2 fun b hb hpb => ?_
        have := hp a List.mem_cons_self b (List.mem_cons_of_mem a hb) (ha b hb) hpb
        simp [hpa] at this
      rw [hnone, List.nil_append] at htail
      simp [hpa, hnone, htail]

/-- Rows with one key are one row. -/
theorem inj {a b : α} (ha : a ∈ l) (hb : b ∈ l)
    (heq : key a = key b) : a = b := by
  obtain ⟨i, hi, rfl⟩ := List.mem_iff_getElem.1 ha
  obtain ⟨j, hj, rfl⟩ := List.mem_iff_getElem.1 hb
  rcases Nat.lt_trichotomy i j with hij | rfl | hij
  · exact absurd heq (List.pairwise_iff_getElem.1 h i j hi hj hij).ne
  · rfl
  · exact absurd heq (List.pairwise_iff_getElem.1 h j i hj hi hij).ne'

/-- Rows of a merged list that are one of its parts, read off its first `n`: those of the part
whose keys are among the first `n` keys. -/
theorem filterMap_take {β : Type*} {part : List β} {name : β → κ}
    (hpart : SortedBy name part) {f : α → Option β}
    (hof : ∀ a ∈ l, ∀ b, f a = some b → b ∈ part ∧ key a = name b)
    (hin : ∀ b ∈ part, ∃ a ∈ l, f a = some b) (n : ℕ)
    [∀ b, Decidable (name b ∈ (l.map key).take n)] :
    (l.take n).filterMap f = part.filter fun b => decide (name b ∈ (l.map key).take n) := by
  have htake : SortedBy key (l.take n) := List.Pairwise.sublist (List.take_sublist n l) h
  have hread : SortedBy name ((l.take n).filterMap f) := by
    refine List.pairwise_filterMap.2 (htake.imp_of_mem fun {a a'} ha ha' hlt b hb b' hb' => ?_)
    rw [← (hof a (List.mem_of_mem_take ha) b hb).2, ← (hof a' (List.mem_of_mem_take ha') b' hb').2]
    exact hlt
  refine eq_of_mem_iff hread (hpart.filter _) fun b => ?_
  rw [List.mem_filterMap, List.mem_filter, decide_eq_true_iff, ← List.map_take, List.mem_map]
  constructor
  · rintro ⟨a, ha, hb⟩
    obtain ⟨hmem, hkey⟩ := hof a (List.mem_of_mem_take ha) b hb
    exact ⟨hmem, a, ha, hkey⟩
  · rintro ⟨hmem, a, ha, hkey⟩
    obtain ⟨a', ha', hb⟩ := hin b hmem
    have heq : a = a' :=
      h.inj (List.mem_of_mem_take ha) ha' (hkey.trans (hof a' ha' b hb).2.symm)
    exact ⟨a, ha, heq ▸ hb⟩

/-- The rows past row `i` are those with a larger key. -/
theorem filter_lt_eq_drop {i : ℕ} (hi : i < l.length) :
    l.filter (fun a => decide (key l[i] < key a)) = l.drop (i + 1) := by
  refine eq_of_mem_iff (h.filter _) (List.Pairwise.sublist (List.drop_sublist _ _) h) fun a => ?_
  rw [List.mem_filter, decide_eq_true_iff, List.mem_iff_getElem]
  constructor
  · rintro ⟨⟨j, hj, rfl⟩, hlt⟩
    have hij : i < j := by
      by_contra hji
      rcases Nat.lt_or_ge j i with hji' | hji'
      · exact (List.pairwise_iff_getElem.1 h j i hj hi hji').not_gt hlt
      · obtain rfl : i = j := by omega
        exact lt_irrefl _ hlt
    exact List.mem_drop_iff_getElem.2 ⟨j - (i + 1), by omega, by congr 1; omega⟩
  · intro ha
    obtain ⟨j, hj, rfl⟩ := List.mem_drop_iff_getElem.1 ha
    refine ⟨⟨_, by omega, rfl⟩, List.pairwise_iff_getElem.1 h i _ hi _ (by omega)⟩

end SortedBy

variable {l l' : List κ}

/-- The members of an ascending list before position `i` are the smaller ones. -/
theorem mem_take_iff_lt (h : SortedBy id l) {i : ℕ} (hi : i < l.length) {x : κ} (hx : x ∈ l) :
    x ∈ l.take i ↔ x < l[i] := by
  have hdrop : l[i] ∈ l.drop i := List.mem_drop_iff_getElem.2 ⟨0, by omega, by simp⟩
  refine ⟨fun hmem => List.Pairwise.rel_of_mem_take_of_mem_drop h hmem hdrop, fun hlt => ?_⟩
  obtain ⟨j, hj, rfl⟩ := List.mem_iff_getElem.1 hx
  have hji : j < i := by
    by_contra hij
    rcases Nat.lt_or_ge i j with hij' | hij'
    · exact (List.pairwise_iff_getElem.1 h i j hi hj hij').not_gt hlt
    · obtain rfl : i = j := by omega
      exact lt_irrefl _ hlt
  exact List.mem_take_iff_getElem.2 ⟨j, by omega, rfl⟩

/-- An ascending list whose members are the smallest of another is an initial
part of it. -/
theorem isPrefix_of_lower (h : SortedBy id l) (h' : SortedBy id l') (hsub : ∀ x ∈ l, x ∈ l')
    (hlower : ∀ x ∈ l', ∀ y ∈ l, x < y → x ∈ l) : l <+: l' := by
  have hl : l'.filter (fun x => decide (x ∈ l)) = l := by
    refine eq_of_mem_iff (h'.filter _) h fun x => ?_
    simpa using hsub x
  have hcut := h'.filter_append_filter_not (p := fun x => decide (x ∈ l)) fun x hx y _ hxy hy =>
    decide_eq_true (hlower x hx y (of_decide_eq_true hy) hxy)
  rw [hl] at hcut
  exact ⟨_, hcut⟩

end Lib
end Shardscape
