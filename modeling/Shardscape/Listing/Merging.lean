/-
# Grouping and merging

`group_by_delimiter` and `merge_and_truncate` of `src/storage.rs`, against what they are for.

The common prefix of a key ends at the first delimiter past the prefix
(`commonPrefix_eq_some_iff_endsAtFirst`), whatever the delimiter: it may overlap itself.
The common prefixes of rows in key order come out in ascending order, because the keys of
one common prefix lie together (`sortedBy_commonPrefixes`), and the merged page splits the
first items back without loss (`firstOfUnion_mergeAndTruncate`).  `grouping_exact` says both
together.
-/

import Shardscape.Backend.Site
import Shardscape.Listing.Groups

namespace Shardscape

open Lib

variable {pre delimiter key cp : Str}

/-! ### Grouping -/

/-- `cp` is the key up to the end of the first delimiter past the prefix. -/
def EndsAtFirst (pre delimiter key cp : Str) : Prop :=
  ∃ before after, key = pre ++ (before ++ delimiter ++ after) ∧ cp = pre ++ (before ++ delimiter) ∧
    ∀ before' after', key = pre ++ (before' ++ delimiter ++ after') →
      before.length ≤ before'.length

/-- The code's common prefix is the one that ends at the first delimiter. -/
theorem commonPrefix_eq_some_iff_endsAtFirst :
    commonPrefix pre delimiter key = some cp ↔ EndsAtFirst pre delimiter key cp := by
  rw [commonPrefix_eq_some_iff]
  constructor
  · rintro ⟨rest, idx, rfl, hidx, rfl⟩
    obtain ⟨after, hafter⟩ := take_append_isPrefix_of_find hidx
    refine ⟨rest.take idx, after, by rw [hafter], rfl, fun before' after' heq => ?_⟩
    obtain rfl := List.append_cancel_left heq
    obtain ⟨i, hi, hfind⟩ := exists_find_le before' delimiter after'
    obtain rfl : i = idx := Option.some.inj (hfind.symm.trans hidx)
    exact (List.length_take_le _ _).trans hi
  · rintro ⟨before, after, rfl, rfl, hfirst⟩
    obtain ⟨i, hi, hfind⟩ := exists_find_le before delimiter after
    refine ⟨_, i, rfl, hfind, ?_⟩
    -- the first one found is not before the first one
    obtain ⟨after', hafter'⟩ := take_append_isPrefix_of_find hfind
    have hle := hfirst _ after' (by rw [hafter'])
    rw [List.length_take] at hle
    obtain rfl : i = before.length := by omega
    rw [List.append_assoc, List.take_left]

/-- A key with the prefix has no common prefix exactly if no delimiter comes after. -/
theorem commonPrefix_eq_none_iff (hkey : pre <+: key) :
    commonPrefix pre delimiter key = none ↔ ¬ delimiter <:+: key.drop pre.length := by
  obtain ⟨rest, rfl⟩ := hkey
  rw [commonPrefix, stripPrefix_eq_some_iff.2 rfl, Option.bind_some, Option.map_eq_none_iff,
    find_eq_none_iff, List.drop_left]

/-- The common prefixes of rows in key order come out in ascending order: the last row has
the last label. -/
theorem sortedBy_commonPrefixes {rows : List ListedRow} (hrows : SortedBy Prod.fst rows)
    (pre delimiter : Str) : (groupByDelimiter rows pre delimiter).2.Pairwise (· < ·) := by
  induction rows using List.reverseRecOn with
  | nil => exact List.Pairwise.nil
  | append_singleton rows row ih =>
    obtain ⟨hbefore, -, hlast⟩ := List.pairwise_append.1 hrows
    have ih := ih hbefore
    have hfold : groupByDelimiter (rows ++ [row]) pre delimiter =
        groupRow pre delimiter (groupByDelimiter rows pre delimiter) row :=
      List.foldl_concat _ _ _ _
    rw [hfold, groupRow_eq]
    cases hcp : commonPrefix pre delimiter row.1 with
    | none => exact ih
    | some cp =>
      dsimp only
      split
      next => exact ih
      next hnew =>
        refine List.pairwise_append.2 ⟨ih, List.pairwise_singleton _ _, fun cp' hcp' x hx => ?_⟩
        obtain rfl := List.mem_singleton.1 hx
        obtain ⟨r, hr, hcpr⟩ := ((groupByDelimiter_spec rows pre delimiter).2.2 cp').1 hcp'
        have hle := (delimited pre delimiter).label_mono
          (hlast r hr row (List.mem_singleton_self row)).le
        rw [label_of_some hcpr, label_of_some hcp] at hle
        exact lt_of_le_of_ne hle fun h => hnew (h ▸ hcp')

/-! ### The merged page -/

section Merge

variable {contents : List ListedRow} {common : List Str}

/-- The objects of a merged page: those whose keys are among the first. -/
theorem contents_mergeAndTruncate (hcontents : SortedBy Prod.fst contents)
    (hsorted : SortedBy Prod.fst (mergedItems contents common)) (maxKeys : ℕ) :
    (mergeAndTruncate contents common maxKeys).contents = contents.filter fun r =>
      decide (r.1 ∈ ((mergedItems contents common).map Prod.fst).take maxKeys) := by
  refine hsorted.filterMap_take hcontents (fun e he r hr => ?_) (fun r hr => ?_) maxKeys
  · obtain ⟨r', hr', rfl⟩ | ⟨_, -, rfl⟩ := mem_mergedItems.1 he <;> cases hr
    exact ⟨hr', rfl⟩
  · exact ⟨_, mem_mergedItems.2 (.inl ⟨r, hr, rfl⟩), rfl⟩

/-- The common prefixes of a merged page: those that are among the first. -/
theorem commonPrefixes_mergeAndTruncate (hcommon : common.Pairwise (· < ·))
    (hsorted : SortedBy Prod.fst (mergedItems contents common)) (maxKeys : ℕ) :
    (mergeAndTruncate contents common maxKeys).commonPrefixes = common.filter fun p =>
      decide (p ∈ ((mergedItems contents common).map Prod.fst).take maxKeys) := by
  have hnames : SortedBy (fun p => p) common := hcommon
  refine hsorted.filterMap_take hnames (fun e he p hp => ?_) (fun p hp => ?_) maxKeys
  · obtain ⟨_, -, rfl⟩ | ⟨p', hp', rfl⟩ := mem_mergedItems.1 he <;> cases hp
    exact ⟨hp', rfl⟩
  · exact ⟨_, mem_mergedItems.2 (.inr ⟨p, hp, rfl⟩), rfl⟩

end Merge

/-- The page is the first `maxKeys` of the union of contents and common prefixes in ascending
order, split back, with the last of them as the marker if there are more. -/
def FirstOfUnion (contents : List ListedRow) (common : List Str) (maxKeys : ℕ) (page : ListPage) :
    Prop :=
  ∃ union : List Str, union.Pairwise (· < ·) ∧
    (∀ x, x ∈ union ↔ (∃ r ∈ contents, r.1 = x) ∨ x ∈ common) ∧
    page.contents = contents.filter (fun r => decide (r.1 ∈ union.take maxKeys)) ∧
    page.commonPrefixes = common.filter (fun p => decide (p ∈ union.take maxKeys)) ∧
    page.isTruncated = decide (maxKeys < union.length) ∧
    page.nextMarker = if maxKeys < union.length then (union.take maxKeys).getLast? else none

/-- The page is cut from the merge of the two sorted lists. -/
theorem firstOfUnion_mergeAndTruncate {contents : List ListedRow} {common : List Str}
    (hcontents : SortedBy Prod.fst contents) (hcommon : common.Pairwise (· < ·))
    (hsorted : SortedBy Prod.fst (mergedItems contents common)) (maxKeys : ℕ) :
    FirstOfUnion contents common maxKeys (mergeAndTruncate contents common maxKeys) := by
  refine ⟨(mergedItems contents common).map Prod.fst, List.pairwise_map.2 hsorted, fun x => ?_,
    contents_mergeAndTruncate hcontents hsorted maxKeys,
    commonPrefixes_mergeAndTruncate hcommon hsorted maxKeys, ?_, ?_⟩
  · simp only [List.mem_map, mem_mergedItems]
    constructor
    · rintro ⟨e, ⟨r, hr, rfl⟩ | ⟨p, hp, rfl⟩, rfl⟩
      · exact .inl ⟨r, hr, rfl⟩
      · exact .inr hp
    · rintro (⟨r, hr, rfl⟩ | hx)
      · exact ⟨_, .inl ⟨r, hr, rfl⟩, rfl⟩
      · exact ⟨_, .inr ⟨x, hx, rfl⟩, rfl⟩
  · rw [List.length_map]
    rfl
  · rw [List.length_map, ← List.map_take, List.getLast?_map]
    simp [mergeAndTruncate]

/-- **Grouping and merging are exact.**  Of rows in ascending key order that all start with
the prefix, and a delimiter: the contents are the rows without a delimiter past the prefix,
in order; the common prefixes are the keys up to the first delimiter past the prefix, in
strictly ascending order; every row is in the contents or starts with exactly one common
prefix; no content key is a common prefix; and the merged page is the first `maxKeys` of
both together. -/
theorem grouping_exact {rows : List ListedRow} (hrows : SortedBy Prod.fst rows) {pre : Str}
    (hpre : ∀ r ∈ rows, pre <+: r.1) (delimiter : Str) (maxKeys : ℕ) :
    (groupByDelimiter rows pre delimiter).1 =
        rows.filter (fun r => decide (¬ delimiter <:+: r.1.drop pre.length)) ∧
      (groupByDelimiter rows pre delimiter).2.Pairwise (· < ·) ∧
      (∀ cp, cp ∈ (groupByDelimiter rows pre delimiter).2 ↔
        ∃ r ∈ rows, EndsAtFirst pre delimiter r.1 cp) ∧
      (∀ r ∈ rows, r ∈ (groupByDelimiter rows pre delimiter).1 ∨
        ∃! cp, cp ∈ (groupByDelimiter rows pre delimiter).2 ∧ cp <+: r.1) ∧
      (∀ r ∈ (groupByDelimiter rows pre delimiter).1,
        ∀ cp ∈ (groupByDelimiter rows pre delimiter).2, r.1 ≠ cp) ∧
      FirstOfUnion (groupByDelimiter rows pre delimiter).1 (groupByDelimiter rows pre delimiter).2
        maxKeys (mergeAndTruncate (groupByDelimiter rows pre delimiter).1
          (groupByDelimiter rows pre delimiter).2 maxKeys) := by
  obtain ⟨hcontents, -, hmem⟩ := groupByDelimiter_spec rows pre delimiter
  have hcommon := sortedBy_commonPrefixes hrows pre delimiter
  -- a row that starts with a common prefix has it
  have hhas : ∀ (r : ListedRow), ∀ cp ∈ (groupByDelimiter rows pre delimiter).2, cp <+: r.1 →
      commonPrefix pre delimiter r.1 = some cp := by
    intro r cp hcp hr
    obtain ⟨r', -, hr'⟩ := (hmem cp).1 hcp
    exact commonPrefix_of_isPrefix hr' hr
  refine ⟨?_, hcommon, fun cp => ?_, fun r hr => ?_, fun r hr cp hcp heq => ?_,
    firstOfUnion_mergeAndTruncate ?_ hcommon (sortedBy_mergedItems hrows pre delimiter) maxKeys⟩
  · rw [hcontents]
    refine List.filter_congr fun r hr => ?_
    rw [Bool.eq_iff_iff, Option.isNone_iff_eq_none, decide_eq_true_iff]
    exact commonPrefix_eq_none_iff (hpre r hr)
  · rw [hmem]
    exact exists_congr fun r => and_congr_right fun _ => commonPrefix_eq_some_iff_endsAtFirst
  · cases hcp : commonPrefix pre delimiter r.1 with
    | none =>
      rw [hcontents]
      exact .inl (List.mem_filter.2 ⟨hr, by simp [hcp]⟩)
    | some cp =>
      refine .inr ⟨cp, ⟨(hmem cp).2 ⟨r, hr, hcp⟩, commonPrefix_isPrefix hcp⟩, ?_⟩
      rintro cp' ⟨hcp', hisPrefix⟩
      exact Option.some.inj ((hhas r cp' hcp' hisPrefix).symm.trans hcp)
  · rw [hcontents, List.mem_filter, Option.isNone_iff_eq_none] at hr
    cases hr.2.symm.trans (hhas r cp hcp (heq ▸ List.prefix_rfl))
  · rw [hcontents]
    exact hrows.filter _

/-- `grouping_exact` on keys with a delimiter that overlaps itself: of `aaa`, `ab` and `b` by
`aa`, the first is under `aa`. -/
theorem grouping_exact_overlap :
    SortedBy Prod.fst [(text "aaa", 0, []), (text "ab", 0, []), (text "b", (0 : ℤ), ([] : Str))] ∧
    (∀ r ∈ [(text "aaa", 0, []), (text "ab", 0, []), (text "b", (0 : ℤ), ([] : Str))],
      ([] : Str) <+: r.1) ∧
    FirstOfUnion [(text "ab", 0, []), (text "b", 0, [])] [text "aa"] 2
      (mergeAndTruncate [(text "ab", 0, []), (text "b", 0, [])] [text "aa"] 2) := by
  have hrows : SortedBy Prod.fst
      [(text "aaa", 0, []), (text "ab", 0, []), (text "b", (0 : ℤ), ([] : Str))] := by
    unfold SortedBy
    decide +kernel
  have hgroup : groupByDelimiter
      [(text "aaa", 0, []), (text "ab", 0, []), (text "b", (0 : ℤ), ([] : Str))] [] (text "aa") =
        ([(text "ab", 0, []), (text "b", 0, [])], [text "aa"]) := by decide +kernel
  have hexact := grouping_exact hrows (fun _ _ => List.nil_prefix) (text "aa") 2
  rw [hgroup] at hexact
  exact ⟨hrows, fun _ _ => List.nil_prefix, hexact.2.2.2.2.2⟩

end Shardscape
