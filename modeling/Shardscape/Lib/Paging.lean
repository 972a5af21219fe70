/-
# Paging through a labelled listing

A listing is handed out in pages of at most `m` labels, each made from the first
`cap` keys past a marker, and the marker of the next page is the last label of this
one, until a page holds all the labels it saw (`Traverses`).

`complete_iff_pageable` says when the pages show every label once, in order: exactly
when every page but the last ends at a group that is its label alone, and fewer
than `cap` keys of a page come before the label that follows it (`Pageable`).  The
proof goes page by page, and `pageable_iff` takes the condition apart the same way.
-/

import Mathlib.Data.List.Flatten
import Shardscape.Lib.Labelling

namespace Shardscape
namespace Lib

variable {κ : Type*} [LinearOrder κ] (f : Labelling κ) {keys : List κ} {cap m : ℕ}

namespace Labelling

/-- The pages of `m` labels, one by one: from the first label `a` of a page, fewer
than `cap` keys come before the label that follows the page, or before the last
label; and if a label follows, the last of the page is that of a lone key. -/
def Pageable (keys : List κ) (cap m : ℕ) : Prop :=
  ∀ a < (f.labels keys).length, m ∣ a →
    f.before keys (min (a + m) ((f.labels keys).length - 1)) < f.before keys a + cap ∧
    (a + m < (f.labels keys).length → ∀ ℓ ∈ (f.labels keys)[a + m - 1]?, f.Lone keys ℓ)

/-- The condition, page by page. -/
theorem pageable_iff (hm : 0 < m) (hlen : m < (f.labels keys).length) :
    f.Pageable keys cap m ↔ f.before keys m < cap ∧
      (∀ ℓ ∈ (f.labels keys)[m - 1]?, f.Lone keys ℓ) ∧ f.Pageable (f.remaining keys m) cap m := by
  have hdrop : (f.labels (f.remaining keys m)).length = (f.labels keys).length - m := by
    rw [labels_remaining, List.length_drop]
  -- page `a + m` of the whole is page `a` of the rest
  have hshift : ∀ a < (f.labels keys).length - m,
      (f.before keys (min (a + m + m) ((f.labels keys).length - 1)) <
          f.before keys (a + m) + cap ∧
        (a + m + m < (f.labels keys).length →
          ∀ ℓ ∈ (f.labels keys)[a + m + m - 1]?, f.Lone keys ℓ)) ↔
      (f.before (f.remaining keys m)
            (min (a + m) ((f.labels (f.remaining keys m)).length - 1)) <
          f.before (f.remaining keys m) a + cap ∧
        (a + m < (f.labels (f.remaining keys m)).length →
          ∀ ℓ ∈ (f.labels (f.remaining keys m))[a + m - 1]?, f.Lone (f.remaining keys m) ℓ)) := by
    intro a ha
    have hmin : min (a + m + m) ((f.labels keys).length - 1) =
        m + min (a + m) ((f.labels keys).length - m - 1) := by omega
    have hget : (f.labels keys)[a + m + m - 1]? = ((f.labels keys).drop m)[a + m - 1]? := by
      rw [List.getElem?_drop]
      exact congrArg _ (by omega)
    refine and_congr ?_ ?_
    · rw [hdrop, hmin, Nat.add_comm a m, f.before_add, f.before_add]
      omega
    · rw [hdrop, labels_remaining, hget]
      refine imp_congr (by omega) (forall₂_congr fun ℓ hℓ => ?_)
      exact (f.lone_remaining_iff (List.mem_of_getElem? hℓ)).symm
  constructor
  · intro h
    obtain ⟨hcap, hlone⟩ := h 0 (by omega) ⟨0, rfl⟩
    rw [before_zero, Nat.zero_add, Nat.zero_add, min_eq_left (by omega)] at hcap
    rw [Nat.zero_add] at hlone
    refine ⟨hcap, hlone hlen, fun a ha hdvd => ?_⟩
    exact (hshift a (by omega)).1 (h (a + m) (by omega) (Nat.dvd_add hdvd (Nat.dvd_refl m)))
  · rintro ⟨hcap, hlone, hrest⟩ a ha hdvd
    rcases Nat.eq_zero_or_pos a with rfl | hpos
    · rw [before_zero, Nat.zero_add, Nat.zero_add, min_eq_left (by omega)]
      exact ⟨hcap, fun _ => hlone⟩
    · have hle : m ≤ a := Nat.le_of_dvd hpos hdvd
      obtain ⟨b, rfl⟩ : ∃ b, a = b + m := ⟨a - m, by omega⟩
      have hb : m ∣ b := (Nat.dvd_add_left (Nat.dvd_refl m)).1 hdvd
      exact (hshift b (by omega)).2 (hrest b (by omega) hb)

/-- The labels among which a page is cut: those of the first `cap` keys past the
marker. -/
def seen (keys : List κ) (cap : ℕ) (after : Option κ) : List κ :=
  f.labels ((keysAfter keys after).take cap)

/-- The pages from a marker on, until one is not truncated. -/
inductive Traverses (keys : List κ) (cap m : ℕ) : Option κ → List (List κ) → Prop
  | last {after : Option κ} (hlast : (f.seen keys cap after).length ≤ m) :
      Traverses keys cap m after [f.seen keys cap after]
  | more {after : Option κ} {marker : κ} {pages : List (List κ)}
      (hmore : m < (f.seen keys cap after).length)
      (hmarker : ((f.seen keys cap after).take m).getLast? = some marker)
      (hpages : Traverses keys cap m (some marker) pages) :
      Traverses keys cap m after ((f.seen keys cap after).take m :: pages)

/-- The labels seen are the first of those past the marker. -/
theorem seen_isPrefix (hkeys : SortedBy id keys) (cap : ℕ) (after : Option κ) :
    f.seen keys cap after <+: f.labels (keysAfter keys after) :=
  f.labels_take_isPrefix (hkeys.filter _) cap

variable {after : Option κ}

variable (hkeys : SortedBy id keys)
include hkeys

/-- Label `i` past the marker is seen iff it begins before the cap. -/
theorem lt_length_seen_iff {i : ℕ} (hi : i < (f.labels (keysAfter keys after)).length) :
    i < (f.seen keys cap after).length ↔ f.before (keysAfter keys after) i < cap :=
  f.lt_length_labels_take_iff (hkeys.filter _) hi cap

/-- The first label shown is the first there is. -/
theorem Traverses.head?_flatten (hcap : 0 < cap) (hm : 0 < m)
    {pages : List (List κ)} (h : f.Traverses keys cap m after pages) :
    pages.flatten.head? = (f.labels (keysAfter keys after)).head? := by
  have hseen : (f.seen keys cap after).head? = (f.labels (keysAfter keys after)).head? := by
    obtain ⟨rest, hrest⟩ := f.seen_isPrefix hkeys cap after
    by_cases hnil : f.labels (keysAfter keys after) = []
    · rw [hnil, List.append_eq_nil_iff] at hrest
      rw [hrest.1, hnil]
    · have hpos : 0 < (f.seen keys cap after).length := by
        refine (f.lt_length_seen_iff hkeys (List.length_pos_iff.2 hnil)).2 ?_
        rwa [before_zero]
      rw [← hrest, List.head?_append_of_ne_nil _ (List.length_pos_iff.1 hpos)]
  rw [← hseen]
  cases h with
  | last hlast => simp
  | more hmore hmarker hpages =>
    have hne : (f.seen keys cap after).take m ≠ [] := by
      rw [← List.length_pos_iff, List.length_take]
      omega
    rw [List.flatten_cons, List.head?_append_of_ne_nil _ hne, List.head?_take, if_neg hm.ne']

/-- One page holds all: it shows every label iff the last begins before the cap. -/
theorem complete_iff_of_length_le (hlen : (f.labels (keysAfter keys after)).length ≤ m) :
    (∃ pages, f.Traverses keys cap m after pages ∧
        pages.flatten = f.labels (keysAfter keys after)) ↔
      f.Pageable (keysAfter keys after) cap m := by
  have hpre := f.seen_isPrefix hkeys cap after
  have hone : f.Pageable (keysAfter keys after) cap m ↔
      f.seen keys cap after = f.labels (keysAfter keys after) := by
    constructor
    · intro h
      refine hpre.eq_of_length_le ?_
      by_contra hlt
      obtain ⟨hcap, -⟩ := h 0 (by omega) ⟨0, rfl⟩
      rw [before_zero, Nat.zero_add, Nat.zero_add, min_eq_right (by omega),
        ← f.lt_length_seen_iff hkeys (by omega)] at hcap
      omega
    · intro h a ha hdvd
      obtain rfl : a = 0 := Nat.eq_zero_of_dvd_of_lt hdvd (by omega)
      rw [before_zero, Nat.zero_add, Nat.zero_add, min_eq_right (by omega),
        ← f.lt_length_seen_iff hkeys (by omega), h]
      exact ⟨by omega, fun _ => by omega⟩
  rw [hone]
  constructor
  · rintro ⟨pages, htrav, hflat⟩
    cases htrav with
    | last hlast => simpa using hflat
    | more hmore hmarker hpages =>
      have := hpre.length_le
      omega
  · intro h
    exact ⟨_, .last (h ▸ hlen), by simp [h]⟩

/-- A truncated page shows the first `m` labels past the marker, and hands out the
last of them. -/
theorem take_seen (hm : 0 < m) (hmore : m < (f.seen keys cap after).length) :
    (f.seen keys cap after).take m = (f.labels (keysAfter keys after)).take m ∧
      ((f.seen keys cap after).take m).getLast? =
        (f.labels (keysAfter keys after))[m - 1]? := by
  obtain ⟨rest, hrest⟩ := f.seen_isPrefix hkeys cap after
  have htake : (f.seen keys cap after).take m = (f.labels (keysAfter keys after)).take m := by
    rw [← hrest, List.take_append_of_le_length hmore.le]
  have hlen : m - 1 < (f.labels (keysAfter keys after)).length := by
    rw [← hrest, List.length_append]
    omega
  refine ⟨htake, ?_⟩
  rw [htake, List.getLast?_take, if_neg hm.ne', List.getElem?_eq_getElem hlen]
  rfl

/-- Pages that go on with the labels after the marker had a lone key for a marker:
any other group would come again at the head of the next page. -/
theorem lone_of_traverses (hcap : 0 < cap) (hm : 0 < m)
    (hafter : ∀ a ∈ after, ∃ k, f.label k = a) {i : ℕ}
    (hi : i + 1 < (f.labels (keysAfter keys after)).length) {pages : List (List κ)}
    (hpages : f.Traverses keys cap m (some (f.labels (keysAfter keys after))[i]) pages)
    (hflat : pages.flatten = (f.labels (keysAfter keys after)).drop (i + 1)) :
    f.Lone (keysAfter keys after) (f.labels (keysAfter keys after))[i] := by
  by_contra hnot
  have hhead := hpages.head?_flatten f hkeys hcap hm
  rw [← f.keysAfter_next hafter (List.getElem_mem _), f.head?_labels_of_not_lone _ hnot, hflat,
    List.head?_drop, List.getElem?_eq_getElem hi] at hhead
  have hlt := List.pairwise_iff_getElem.1 (f.sortedBy_labels (keysAfter keys after))
    i (i + 1) (by omega) hi (Nat.lt_succ_self i)
  exact hlt.ne' (Option.some.inj hhead)

/-- **When the pages show everything.**  From a marker that is a label, or from the
start, the traversal ends and shows every label past the marker once, in ascending
order, exactly when the keys past the marker are pageable. -/
theorem complete_iff_pageable (hcap : 0 < cap) (hm : 0 < m)
    (hafter : ∀ a ∈ after, ∃ k, f.label k = a) :
    (∃ pages, f.Traverses keys cap m after pages ∧
        pages.flatten = f.labels (keysAfter keys after)) ↔
      f.Pageable (keysAfter keys after) cap m := by
  -- by induction on the number of labels past the marker: a page takes `m` of them
  induction hn : (f.labels (keysAfter keys after)).length using Nat.strong_induction_on
    generalizing after with
  | _ n ih =>
  by_cases hlen : (f.labels (keysAfter keys after)).length ≤ m
  · exact f.complete_iff_of_length_le hkeys hlen
  obtain ⟨i, rfl⟩ : ∃ i, m = i + 1 := ⟨m - 1, by omega⟩
  set L := f.labels (keysAfter keys after) with hL
  have hlen : i + 1 < L.length := not_le.1 hlen
  have hi : i < L.length := by omega
  have hmarker : L[i + 1 - 1]? = some L[i] := List.getElem?_eq_getElem hi
  have hnext : f.Lone (keysAfter keys after) L[i] →
      ((∃ pages, f.Traverses keys cap (i + 1) (some L[i]) pages ∧
          pages.flatten = L.drop (i + 1)) ↔
        f.Pageable (f.remaining (keysAfter keys after) (i + 1)) cap (i + 1)) := by
    intro hlone
    have hrest : keysAfter keys (some L[i]) = f.remaining (keysAfter keys after) (i + 1) := by
      rw [← f.keysAfter_next hafter (List.getElem_mem hi), f.keysAfter_of_lone hi hlone]
    have hlabel : ∀ a ∈ some L[i], ∃ k, f.label k = a := by
      rintro a ⟨⟩
      exact (f.mem_labels.1 (List.getElem_mem hi)).imp fun _ => And.right
    have hdrop : f.labels (keysAfter keys (some L[i])) = L.drop (i + 1) := by
      rw [hrest, labels_remaining]
    have hshort : (f.labels (keysAfter keys (some L[i]))).length < n := by
      rw [hdrop, List.length_drop]
      omega
    rw [← hrest, ← hdrop]
    exact ih _ hshort hlabel rfl
  rw [f.pageable_iff hm hlen, hmarker]
  constructor
  · rintro ⟨pages, htrav, hflat⟩
    cases htrav with
    | last hshort =>
      rw [List.flatten_singleton] at hflat
      rw [hflat] at hshort
      omega
    | @more _ marker pages hmore hmark hpages =>
      obtain ⟨htake, hgl⟩ := f.take_seen hkeys hm hmore
      obtain rfl : L[i] = marker := Option.some.inj (hmarker.symm.trans (hgl.symm.trans hmark))
      have hdrop : pages.flatten = L.drop (i + 1) := by
        rw [List.flatten_cons, htake] at hflat
        exact List.append_cancel_left (hflat.trans (List.take_append_drop (i + 1) L).symm)
      have hlone := f.lone_of_traverses hkeys hcap hm hafter hlen hpages hdrop
      refine ⟨(f.lt_length_seen_iff hkeys hlen).1 hmore, ?_,
        (hnext hlone).1 ⟨pages, hpages, hdrop⟩⟩
      rintro ℓ ⟨⟩
      exact hlone
  · rintro ⟨hbefore, hlone, hpageable⟩
    have hmore := (f.lt_length_seen_iff hkeys hlen).2 hbefore
    obtain ⟨htake, hgl⟩ := f.take_seen hkeys hm hmore
    obtain ⟨pages, hpages, hflat⟩ := (hnext (hlone _ rfl)).2 hpageable
    refine ⟨_, .more hmore (hgl.trans hmarker) hpages, ?_⟩
    rw [List.flatten_cons, htake, hflat, List.take_append_drop]

end Labelling
end Lib
end Shardscape
