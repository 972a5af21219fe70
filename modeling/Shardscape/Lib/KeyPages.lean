/-
# Paging by a key that is not unique

A list is handed out in pages of `m`, in the order of its keys, and the next page starts past
the last key of this one (`Pages`).  Several entries may have one key.  Where a page ends
between two of them the rest of them is skipped, so that the pages hold the whole list exactly
if no page ends there (`pages_complete_iff`).
-/

import Mathlib.Data.List.Flatten
import Shardscape.Lib.Sorted

namespace Shardscape
namespace Lib

variable {α κ : Type*} [LinearOrder κ] {key : α → κ} {m : ℕ}

/-- The entries past the key of one. -/
def past (key : α → κ) (a : α) (l : List α) : List α := l.filter fun b => decide (key a < key b)

variable {l : List α}

/-- The elements past `a` are those with a larger key. -/
theorem mem_past {a b : α} : b ∈ past key a l ↔ b ∈ l ∧ key a < key b := by
  rw [past, List.mem_filter, decide_eq_true_iff]

/-- The pages of `m` entries, until one is not full; each starts past the last key of the one
before. -/
inductive Pages (key : α → κ) (m : ℕ) : List α → List (List α) → Prop
  | last {l : List α} (hlast : l.length ≤ m) : Pages key m l [l]
  | more {l : List α} {a : α} {pages : List (List α)} (hmore : m < l.length)
      (hmarker : (l.take m).getLast? = some a)
      (hpages : Pages key m (past key a l) pages) :
      Pages key m l (l.take m :: pages)

/-- No page ends between two entries with one key. -/
def Aligned (key : α → κ) (m : ℕ) (l : List α) : Prop :=
  ∀ j a b, 0 < j → l[j * m - 1]? = some a → l[j * m]? = some b → key a ≠ key b

/-- The last entry of a page. -/
theorem getLast?_take_of_lt (hm : 0 < m) (hlen : m < l.length) :
    (l.take m).getLast? = some l[m - 1] := by
  rw [List.getLast?_take, if_neg hm.ne', List.getElem?_eq_getElem (by omega), Option.some_or]

/-- The entries past the last of a page do not include any of the page. -/
theorem past_sublist_drop (h : l.Pairwise fun a b => key a ≤ key b) {i : ℕ} (hi : i < l.length) :
    (past key l[i] l).Sublist (l.drop (i + 1)) := by
  have htake : (l.take (i + 1)).filter (fun b => decide (key l[i] < key b)) = [] := by
    refine List.filter_eq_nil_iff.2 fun b hb => ?_
    obtain ⟨j, hj, rfl⟩ := List.mem_take_iff_getElem.1 hb
    rcases Nat.lt_or_ge j i with hji | hji
    · simp [List.pairwise_iff_getElem.1 h j i (by omega) (by omega) hji]
    · obtain rfl : j = i := by omega
      simp
  have hsplit := congrArg (List.filter fun b => decide (key l[i] < key b))
    (List.take_append_drop (i + 1) l)
  rw [List.filter_append, htake, List.nil_append] at hsplit
  rw [past, ← hsplit]
  exact List.filter_sublist

/-- The pages are a part of the list, in its order. -/
theorem Pages.sublist {pages : List (List α)} (hm : 0 < m) (hpages : Pages key m l pages)
    (h : l.Pairwise fun a b => key a ≤ key b) : pages.flatten.Sublist l := by
  induction hpages with
  | last hlast => simp
  | @more l a pages hmore hmarker hpages ih =>
    rw [getLast?_take_of_lt hm hmore] at hmarker
    cases hmarker
    have hpast := past_sublist_drop h (i := m - 1) (by omega)
    rw [Nat.sub_add_cancel hm] at hpast
    have hsub := List.Sublist.append_left ((ih (h.filter _)).trans hpast) (l.take m)
    rwa [List.take_append_drop, ← List.flatten_cons] at hsub

/-- **The pages come to an end.** -/
theorem exists_pages (key : α → κ) (hm : 0 < m) (l : List α) : ∃ pages, Pages key m l pages := by
  induction hn : l.length using Nat.strong_induction_on generalizing l with
  | _ n ih =>
  by_cases hlen : l.length ≤ m
  · exact ⟨_, .last hlen⟩
  · have hlt : m < l.length := not_le.1 hlen
    have hmarker := getLast?_take_of_lt hm hlt
    -- the marker itself is not past the marker
    have hshort : (past key l[m - 1] l).length < n := by
      refine lt_of_lt_of_eq ?_ hn
      refine List.length_filter_lt_length_iff_exists.2 ⟨l[m - 1], List.getElem_mem _, ?_⟩
      simp
    obtain ⟨pages, hpages⟩ := ih _ hshort _ rfl
    exact ⟨_, .more hlt hmarker hpages⟩

/-- Where the keys differ, the entries past a position are those with a larger key. -/
theorem past_eq_drop_of_ne (h : l.Pairwise fun a b => key a ≤ key b) {i : ℕ} (hi : i + 1 < l.length)
    (hne : key l[i] ≠ key l[i + 1]) :
    past key l[i] l = l.drop (i + 1) := by
  refine (past_sublist_drop h (by omega)).eq_of_length_le ?_
  -- whatever comes next has a larger key
  have hle := List.pairwise_iff_getElem.1 h
  have hlt : key l[i] < key l[i + 1] := lt_of_le_of_ne (hle i (i + 1) (by omega) hi (by omega)) hne
  have hdrop : (l.drop (i + 1)).filter (fun b => decide (key l[i] < key b)) = l.drop (i + 1) := by
    refine List.filter_eq_self.2 fun b hb => decide_eq_true ?_
    obtain ⟨j, hj, rfl⟩ := List.mem_drop_iff_getElem.1 hb
    rcases Nat.eq_zero_or_pos j with rfl | hj0
    · exact hlt
    · exact hlt.trans_le (hle (i + 1) (i + 1 + j) hi (by omega) (by omega))
  rw [← hdrop]
  exact ((List.drop_sublist _ _).filter _).length_le

omit [LinearOrder κ] in
/-- A list that is longer than a page is aligned iff its first page ends well and the rest is
aligned. -/
theorem aligned_iff (hm : 0 < m) (hlen : m < l.length) :
    Aligned key m l ↔ key l[m - 1] ≠ key l[m] ∧ Aligned key m (l.drop m) := by
  have hshift : ∀ j, 0 < j → (l.drop m)[j * m - 1]? = l[(j + 1) * m - 1]? ∧
      (l.drop m)[j * m]? = l[(j + 1) * m]? := by
    intro j hj
    have hpos : 0 < j * m := Nat.mul_pos hj hm
    rw [List.getElem?_drop, List.getElem?_drop, Nat.succ_mul]
    exact ⟨congrArg _ (by omega), congrArg _ (by omega)⟩
  constructor
  · intro h
    refine ⟨h 1 _ _ Nat.one_pos ?_ ?_, fun j a b hj ha hb => ?_⟩
    · rw [Nat.one_mul, List.getElem?_eq_getElem (by omega)]
    · rw [Nat.one_mul, List.getElem?_eq_getElem hlen]
    · rw [(hshift j hj).1] at ha
      rw [(hshift j hj).2] at hb
      exact h (j + 1) a b (Nat.succ_pos j) ha hb
  · rintro ⟨hfirst, hrest⟩ j a b hj ha hb
    obtain ⟨j, rfl⟩ : ∃ i, j = i + 1 := ⟨j - 1, by omega⟩
    rcases Nat.eq_zero_or_pos j with rfl | hj0
    · rw [Nat.zero_add, Nat.one_mul] at ha hb
      rw [List.getElem?_eq_getElem (by omega)] at ha
      rw [List.getElem?_eq_getElem hlen] at hb
      cases ha
      cases hb
      exact hfirst
    · rw [← (hshift j hj0).1] at ha
      rw [← (hshift j hj0).2] at hb
      exact hrest j a b hj0 ha hb

/-- **When the pages are the whole list**: no page ends between two entries with one key. -/
theorem pages_complete_iff (h : l.Pairwise fun a b => key a ≤ key b) (hnodup : l.Nodup)
    (hm : 0 < m) :
    (∃ pages, Pages key m l pages ∧ ∀ a ∈ l, a ∈ pages.flatten) ↔ Aligned key m l := by
  -- by induction on the length: a page takes `m` entries
  induction hn : l.length using Nat.strong_induction_on generalizing l with
  | _ n ih =>
  by_cases hlen : l.length ≤ m
  · refine ⟨fun _ j a b hj _ hb => ?_, fun _ => ⟨[l], .last hlen, by simp⟩⟩
    obtain ⟨hlt, -⟩ := List.getElem?_eq_some_iff.1 hb
    have := Nat.le_mul_of_pos_left m hj
    omega
  have hlt : m < l.length := not_le.1 hlen
  obtain ⟨i, rfl⟩ : ∃ i, m = i + 1 := ⟨m - 1, by omega⟩
  -- what a page does not hold is past it
  have hpast : ∀ {a}, a ∈ l.drop (i + 1) → a ∉ l.take (i + 1) := by
    intro a hdrop htake
    rw [← List.take_append_drop (i + 1) l] at hnodup
    exact (List.disjoint_of_nodup_append hnodup) htake hdrop
  have hrest := ih (l.drop (i + 1)).length (by rw [List.length_drop]; omega)
    (List.Pairwise.sublist (List.drop_sublist _ _) h) (hnodup.sublist (List.drop_sublist _ _)) rfl
  have hpastEq : key l[i + 1 - 1] ≠ key l[i + 1] →
      past key l[i + 1 - 1] l = l.drop (i + 1) :=
    past_eq_drop_of_ne h hlt
  rw [aligned_iff hm hlt, ← hrest]
  constructor
  · rintro ⟨pages, hpages, hall⟩
    cases hpages with
    | last hlast => exact absurd hlast hlen
    | @more _ a pages hmore hmarker hpages =>
      rw [getLast?_take_of_lt hm hlt] at hmarker
      cases hmarker
      have hlater : ∀ b ∈ l.drop (i + 1), b ∈ pages.flatten := by
        intro b hb
        have hmem := hall b (List.mem_of_mem_drop hb)
        rw [List.flatten_cons] at hmem
        exact (List.mem_append.1 hmem).resolve_left (hpast hb)
      have hne : key l[i + 1 - 1] ≠ key l[i + 1] := by
        have hnext := hlater l[i + 1] (List.mem_drop_iff_getElem.2 ⟨0, by omega, rfl⟩)
        have hmem := (hpages.sublist hm (h.filter _)).subset hnext
        exact (mem_past.1 hmem).2.ne
      refine ⟨hne, pages, ?_, hlater⟩
      rwa [hpastEq hne] at hpages
  · rintro ⟨hne, pages, hpages, hall⟩
    rw [← hpastEq hne] at hpages
    refine ⟨_, .more hlt (getLast?_take_of_lt hm hlt) hpages, fun a ha => ?_⟩
    rw [← List.take_append_drop (i + 1) l] at ha
    rw [List.flatten_cons]
    exact List.mem_append.2 ((List.mem_append.1 ha).imp_right (hall a))

end Lib
end Shardscape
