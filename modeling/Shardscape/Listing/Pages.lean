/-
# What a page is made of

`list_page` of `src/storage.rs` over the rows of the store.

The range of a prefix holds exactly the keys that begin with it
(`inListRange_none_iff`), where the increment is UTF-8: elsewhere the listing
panics.  The loop gathers the first `SCAN_CAP` rows past the marker (`gather_eq`):
every turn but the last brings a full page, so a hundred turns are enough.  A page
of a delimited listing shows the first labels of those rows (`listPage_shows`).
-/

import Shardscape.Listing.Groups

namespace Shardscape

open Lib

/-! ### The range of a prefix -/

/-- The keys from a string up to its increment are those that begin with it. -/
theorem incrementReversed_spec (rev key : Bytes) :
    (rev.reverse ≤ key ∧ ∀ upper ∈ incrementReversed rev, key < upper.reverse) ↔
      rev.reverse <+: key := by
  induction rev with
  | nil => simp [incrementReversed, le_of_isPrefix List.nil_prefix]
  | cons b rest ih =>
    rw [incrementReversed, List.reverse_cons]
    split
    next hb =>
      have hcov : b ⋖ Fin.ofNat 256 (b.val + 1) := by
        have hval : (Fin.ofNat 256 (b.val + 1)).val = b.val + 1 := Nat.mod_eq_of_lt (by omega)
        refine ⟨Fin.lt_def.2 (by omega), fun x hbx hx => ?_⟩
        have h1 := Fin.lt_def.1 hbx
        have h2 := Fin.lt_def.1 hx
        omega
      simpa using le_and_lt_iff_isPrefix hcov rest.reverse key
    next hb =>
      -- the last byte is popped: the keys are bounded by the increment of the rest
      have hmax : ∀ x : Byte, x ≤ b := fun x => Fin.le_def.2 (by omega)
      constructor
      · rintro ⟨hle, hlt⟩
        have hrest : rest.reverse ≤ key :=
          (le_of_isPrefix (List.prefix_append rest.reverse [b])).trans hle
        exact isPrefix_append_top hmax (ih.1 ⟨hrest, hlt⟩) hle
      · intro h
        exact ⟨le_of_isPrefix h, (ih.2 ((List.prefix_append rest.reverse [b]).trans h)).2⟩

variable {pre : Option Str} {range : Option (Str × Option Str)}

/-- **The range of a prefix** holds the keys that begin with it. -/
theorem inListRange_none_iff (hrange : listRange pre = some range) (key : Str) :
    Store.inListRange none range key = true ↔ pre.getD [] <+: key := by
  cases pre with
  | none =>
    obtain rfl : none = range := Option.some.inj hrange
    simp [Store.inListRange]
  | some p =>
    simp only [listRange, prefixKeyRange, incrementPrefix, Option.map_map,
      Option.map_eq_some_iff] at hrange
    obtain ⟨upper, hupper, rfl⟩ := hrange
    have hspec := incrementReversed_spec p.reverse key
    rw [List.reverse_reverse] at hspec
    rw [Option.getD_some, ← hspec]
    cases hinc : incrementReversed p.reverse with
    | none =>
      rw [hinc] at hupper
      cases hupper
      simp [Store.inListRange]
    | some bytes =>
      simp only [hinc, Option.map_eq_some_iff, fromUtf8, Option.ite_none_right_eq_some,
        Option.some.injEq] at hupper
      obtain ⟨_, ⟨-, rfl⟩, rfl⟩ := hupper
      simp [Store.inListRange]

namespace Store

variable (s : Store) (bucket : Str)

/-- The rows come in the order of their keys. -/
theorem sortedBy_rowsAfter (after : Option Str) (range : Option (Str × Option Str)) :
    SortedBy Prod.fst (s.rowsAfter bucket after range) :=
  (s.sortedBy_bucketRows bucket).filter _

variable {range : Option (Str × Option Str)}

/-- A marker that the range admits leaves the rows past it. -/
theorem rowsAfter_some {after : Option Str} {marker : Str}
    (hlower : ∀ key, marker < key → inListRange after range key =
      inListRange (some marker) range key) :
    s.rowsAfter bucket (some marker) range =
      (s.rowsAfter bucket after range).filter fun r => decide (marker < r.1) := by
  rw [rowsAfter, rowsAfter, List.filter_filter]
  refine List.filter_congr fun r _ => ?_
  by_cases hlt : marker < r.1
  · rw [hlower r.1 hlt]
    simp [hlt]
  · have : inListRange (some marker) range r.1 = false := by simp [inListRange, hlt]
    simp [this, hlt]

/-- What a range admits, it admits further on, up to the upper bound. -/
theorem inListRange_of_lt {after : Option Str} {marker : Str}
    (hmarker : inListRange after range marker = true) (key : Str) (hlt : marker < key) :
    inListRange after range key = inListRange (some marker) range key := by
  have hm := (Bool.and_eq_true_iff.1 hmarker).1
  cases after with
  | some a =>
    have : a < key := (of_decide_eq_true hm).trans hlt
    simp [inListRange, this, hlt]
  | none =>
    cases range with
    | none => simp [inListRange, hlt]
    | some r =>
      have : r.1 ≤ key := (of_decide_eq_true hm).trans hlt.le
      simp [inListRange, this, hlt]

/-- Past row `i` come the rows after it. -/
theorem rowsAfter_getElem {after : Option Str} {i : ℕ}
    (hi : i < (s.rowsAfter bucket after range).length) :
    s.rowsAfter bucket (some (s.rowsAfter bucket after range)[i].1) range =
      (s.rowsAfter bucket after range).drop (i + 1) := by
  have hadmits := (List.mem_filter.1 (List.getElem_mem hi)).2
  rw [s.rowsAfter_some bucket (inListRange_of_lt hadmits),
    ← (s.sortedBy_rowsAfter bucket after range).filter_lt_eq_drop hi]
  exact List.filter_congr fun r _ => decide_eq_decide.2 Iff.rfl

end Store

/-! ### The loop -/

variable {objects : Store}

/-- Where the prefix has no range, the loop panics. -/
theorem gather_eq_none {bucket : Str} (hrange : listRange pre = none) (fuel : ℕ)
    (cursor : Option Str) (gathered : List ListedRow) :
    gather objects bucket pre fuel cursor gathered = none := by
  cases fuel with
  | zero => rfl
  | succ fuel => rw [gather, Store.listObjects_eq, hrange, Option.map_none]

/-- **The loop gathers the first `SCAN_CAP` rows.**  With `fuel` turns left, as many
pages short of the cap as there are turns, it adds the next rows up to the cap. -/
theorem gather_eq {bucket : Str} (hrange : listRange pre = some range) {fuel : ℕ} (hfuel : 0 < fuel)
    (cursor : Option Str) (gathered : List ListedRow)
    (hlen : gathered.length + fuel * scanPage = scanCap) :
    gather objects bucket pre fuel cursor gathered =
      some (gathered ++ (objects.rowsAfter bucket cursor range).take (fuel * scanPage)) := by
  induction fuel generalizing cursor gathered with
  | zero => omega
  | succ fuel ih =>
    have hpos : 0 < scanPage := by decide
    have hmul : (fuel + 1) * scanPage = scanPage + fuel * scanPage := by
      rw [Nat.add_mul, Nat.one_mul, Nat.add_comm]
    rw [gather, Store.listObjects_eq, hrange, Option.map_some, hmul]
    rw [hmul] at hlen
    dsimp only
    by_cases hmore : scanPage < (objects.rowsAfter bucket cursor range).length
    · -- a full page, and its last row is the next cursor
      have hi : scanPage - 1 < (objects.rowsAfter bucket cursor range).length := by omega
      have hrest := objects.rowsAfter_getElem bucket hi
      rw [Nat.sub_add_cancel hpos] at hrest
      have hpage : (gathered ++ (objects.rowsAfter bucket cursor range).take scanPage).length =
          gathered.length + scanPage := by
        rw [List.length_append, List.length_take, Nat.min_eq_left hmore.le]
      rw [List.getLast?_take, if_neg hpos.ne', List.getElem?_eq_getElem hi]
      simp only [hmore, decide_true, true_and, hpage, Option.some_or]
      by_cases hcap : gathered.length + scanPage < scanCap
      · have hfuel : 0 < fuel := by
          by_contra h
          obtain rfl : fuel = 0 := by omega
          omega
        rw [if_pos hcap, ih hfuel _ _ (by rw [hpage]; omega), hrest, List.append_assoc,
          ← List.take_add]
      · obtain h : fuel * scanPage = 0 := by omega
        rw [if_neg hcap, h, Nat.add_zero]
    · -- the last page
      have hall : (objects.rowsAfter bucket cursor range).length ≤ scanPage := not_lt.1 hmore
      rw [List.take_of_length_le hall, List.take_of_length_le (by omega)]
      simp only [hmore, decide_false, Bool.false_eq_true, false_and, if_false]
      split <;> rfl

/-- The rows a page is made of, from the start of the loop. -/
theorem gather_start {bucket : Str} (hrange : listRange pre = some range)
    (startAfter : Option Str) :
    gather objects bucket pre (scanCap / scanPage) startAfter [] =
      some ((objects.rowsAfter bucket startAfter range).take scanCap) := by
  have hmul : scanCap / scanPage * scanPage = scanCap := by decide
  rw [gather_eq hrange (by decide) startAfter [] (by rw [hmul]; rfl), hmul, List.nil_append]

/-- **A page of a delimited listing** shows the first labels of the first `SCAN_CAP`
rows past the marker. -/
theorem listPage_shows (objects : Store) (bucket : Str) (hrange : listRange pre = some range)
    (startAfter : Option Str) (delimiter : Str) (maxKeys : ℕ) :
    ∃ page, listPage objects bucket startAfter pre (some delimiter) maxKeys = some page ∧
      page.Shows (pre.getD []) delimiter
        ((objects.rowsAfter bucket startAfter range).take scanCap) maxKeys := by
  have hsorted : SortedBy Prod.fst ((objects.rowsAfter bucket startAfter range).take scanCap) :=
    List.Pairwise.sublist (List.take_sublist _ _)
      (objects.sortedBy_rowsAfter bucket startAfter range)
  refine ⟨_, ?_, shows_mergeAndTruncate hsorted (pre.getD []) delimiter maxKeys⟩
  rw [listPage, gather_start hrange, Option.map_some]

/-- Where the prefix has no range, the listing panics. -/
theorem listPage_eq_none {bucket : Str} (hrange : listRange pre = none) (startAfter : Option Str)
    (delimiter : Str) (maxKeys : ℕ) :
    listPage objects bucket startAfter pre (some delimiter) maxKeys = none := by
  rw [listPage, gather_eq_none hrange, Option.map_none]

end Shardscape
