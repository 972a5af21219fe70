/-
# Common prefixes and the page made of them

What `group_by_delimiter` and `merge_and_truncate` of `src/storage.rs` make of rows
in key order.

The common prefix of a key is the key up to the first delimiter past the prefix.  A
key that begins with it has the same (`commonPrefix_of_isPrefix`), and that is all
it takes for the keys of one common prefix to lie together: showing each key under
its common prefix, or under itself, is a `Labelling` (`delimited`).

The grouping keeps the keys without a common prefix and lists the common prefixes
once (`groupByDelimiter_spec`), so the merged page shows the first labels of the
rows in ascending order (`shows_mergeAndTruncate`).
-/

import Shardscape.Backend.ListPage
import Shardscape.Lib.Labelling

namespace Shardscape

open Lib

/-- The key up to the first delimiter past the prefix, if there is one. -/
def commonPrefix (pre delimiter key : Str) : Option Str :=
  (stripPrefix pre key).bind fun rest =>
    (find delimiter rest).map fun idx => pre ++ rest.take idx ++ delimiter

variable {pre delimiter key cp : Str}

/-- What `strip_prefix` leaves is what follows the prefix. -/
theorem stripPrefix_eq_some_iff {rest : Str} :
    stripPrefix pre key = some rest ↔ key = pre ++ rest := by
  unfold stripPrefix
  constructor
  · intro h
    split at h
    next hp =>
      obtain ⟨z, rfl⟩ := hp
      rw [List.drop_left] at h
      cases h
      rfl
    next => cases h
  · rintro rfl
    rw [if_pos (List.prefix_append pre rest), List.drop_left]

/-- A common prefix ends with the first delimiter that is found after the prefix. -/
theorem commonPrefix_eq_some_iff : commonPrefix pre delimiter key = some cp ↔
    ∃ rest idx, key = pre ++ rest ∧ find delimiter rest = some idx ∧
      cp = pre ++ (rest.take idx ++ delimiter) := by
  simp only [commonPrefix, Option.bind_eq_some_iff, Option.map_eq_some_iff,
    stripPrefix_eq_some_iff, List.append_assoc]
  constructor
  · rintro ⟨rest, hkey, idx, hidx, rfl⟩
    exact ⟨rest, idx, hkey, hidx, rfl⟩
  · rintro ⟨rest, idx, hkey, hidx, rfl⟩
    exact ⟨rest, hkey, idx, hidx, rfl⟩

/-- A key begins with its common prefix. -/
theorem commonPrefix_isPrefix (h : commonPrefix pre delimiter key = some cp) : cp <+: key := by
  obtain ⟨rest, idx, rfl, hidx, rfl⟩ := commonPrefix_eq_some_iff.1 h
  exact (List.prefix_append_right_inj pre).2 (take_append_isPrefix_of_find hidx)

/-- A common prefix begins with the prefix. -/
theorem isPrefix_commonPrefix (h : commonPrefix pre delimiter key = some cp) : pre <+: cp := by
  obtain ⟨rest, idx, -, -, rfl⟩ := commonPrefix_eq_some_iff.1 h
  exact List.prefix_append _ _

/-- Every key that begins with a common prefix has it. -/
theorem commonPrefix_of_isPrefix {key' : Str} (h : commonPrefix pre delimiter key = some cp)
    (hkey' : cp <+: key') : commonPrefix pre delimiter key' = some cp := by
  obtain ⟨rest, idx, rfl, hidx, rfl⟩ := commonPrefix_eq_some_iff.1 h
  obtain ⟨z, rfl⟩ := hkey'
  have hlen := le_length_of_find hidx
  refine commonPrefix_eq_some_iff.2 ⟨rest.take idx ++ delimiter ++ z, idx, ?_, ?_, ?_⟩
  · rw [List.append_assoc]
  · exact find_of_isPrefix hidx (List.prefix_append _ z)
  · have htake : (rest.take idx ++ delimiter ++ z).take idx = rest.take idx := by
      rw [List.append_assoc, List.take_append_of_le_length, List.take_take, Nat.min_self]
      rw [List.length_take]
      omega
    rw [htake]

/-- **Keys shown under their common prefix.** -/
def delimited (pre delimiter : Str) : Labelling Str where
  label key := (commonPrefix pre delimiter key).getD key
  label_le key := by
    cases h : commonPrefix pre delimiter key with
    | none => exact le_rfl
    | some cp => exact le_of_isPrefix (commonPrefix_isPrefix h)
  lt_label {k k'} := by
    intro hlt
    cases h : commonPrefix pre delimiter k with
    | none => simpa [h] using hlt
    | some cp =>
      rw [h, Option.getD_some] at hlt
      -- a label from `cp` to `k` begins with `cp`, and so does its key
      by_contra hle
      have hlabel := isPrefix_of_le_of_isPrefix hlt.le (not_lt.1 hle) (commonPrefix_isPrefix h)
      have hkey : (commonPrefix pre delimiter k').getD k' <+: k' := by
        cases h' : commonPrefix pre delimiter k' with
        | none => exact List.prefix_rfl
        | some cp' => exact commonPrefix_isPrefix h'
      rw [commonPrefix_of_isPrefix h (hlabel.trans hkey), Option.getD_some] at hlt
      exact lt_irrefl _ hlt

/-- A key that is not grouped is its own label. -/
theorem label_of_none (h : commonPrefix pre delimiter key = none) :
    (delimited pre delimiter).label key = key := by
  simp [delimited, h]

/-- The label of a grouped key is its common prefix. -/
theorem label_of_some (h : commonPrefix pre delimiter key = some cp) :
    (delimited pre delimiter).label key = cp := by
  simp [delimited, h]

/-- A label of a key that begins with the prefix begins with the prefix. -/
theorem isPrefix_label (h : pre <+: key) : pre <+: (delimited pre delimiter).label key := by
  cases hcp : commonPrefix pre delimiter key with
  | none => rwa [label_of_none hcp]
  | some cp =>
    rw [label_of_some hcp]
    exact isPrefix_commonPrefix hcp

/-! ### Grouping -/

/-- A row is listed itself, or its common prefix is, once. -/
theorem groupRow_eq (acc : List ListedRow × List Str) (row : ListedRow) :
    groupRow pre delimiter acc row =
      match commonPrefix pre delimiter row.1 with
      | none => (acc.1 ++ [row], acc.2)
      | some cp => if cp ∈ acc.2 then acc else (acc.1, acc.2 ++ [cp]) := by
  unfold groupRow commonPrefix
  cases hrest : stripPrefix pre row.1 with
  | none => rfl
  | some rest =>
    cases hidx : find delimiter rest with
    | none => simp [hidx]
    | some idx =>
      simp only [hidx, Option.bind_some, Option.map_some]
      by_cases hmem : pre ++ rest.take idx ++ delimiter ∈ acc.2
      · rw [if_pos hmem, if_neg fun h => h.2 hmem]
      · -- the check of the last one is covered by the check of them all
        rw [if_neg hmem, if_pos ⟨fun h => hmem (List.mem_of_getLast? h), hmem⟩]

/-- **Grouping** keeps the rows without a common prefix, and lists every common prefix
of a row once. -/
theorem groupByDelimiter_spec (rows : List ListedRow) (pre delimiter : Str) :
    (groupByDelimiter rows pre delimiter).1 =
        rows.filter (fun r => (commonPrefix pre delimiter r.1).isNone) ∧
      (groupByDelimiter rows pre delimiter).2.Nodup ∧
      ∀ cp, cp ∈ (groupByDelimiter rows pre delimiter).2 ↔
        ∃ r ∈ rows, commonPrefix pre delimiter r.1 = some cp := by
  induction rows using List.reverseRecOn with
  | nil => simp [groupByDelimiter]
  | append_singleton rows row ih =>
    have hfold : groupByDelimiter (rows ++ [row]) pre delimiter =
        groupRow pre delimiter (groupByDelimiter rows pre delimiter) row :=
      List.foldl_concat _ _ _ _
    obtain ⟨hcontents, hnodup, hmem⟩ := ih
    rw [hfold, groupRow_eq]
    cases hcp : commonPrefix pre delimiter row.1 with
    | none => simp [hcontents, hcp, hnodup, hmem, or_and_right, exists_or]
    | some cp =>
      by_cases hin : cp ∈ (groupByDelimiter rows pre delimiter).2
      · have hold := (hmem cp).1 hin
        simp only [if_pos hin]
        refine ⟨by simp [hcontents, hcp], hnodup, fun cp' => ?_⟩
        rw [hmem]
        simp only [List.mem_append, List.mem_singleton, or_and_right, exists_or, exists_eq_left,
          hcp, Option.some.injEq]
        exact ⟨.inl, fun h => h.elim id fun h => h ▸ hold⟩
      · simp only [if_neg hin]
        refine ⟨by simp [hcontents, hcp], ?_, fun cp' => ?_⟩
        · exact List.nodup_append.2 ⟨hnodup, List.nodup_singleton cp,
            fun a ha b hb => by rintro rfl; exact hin (List.mem_singleton.1 hb ▸ ha)⟩
        · simp [hmem, hcp, or_and_right, exists_or, eq_comm]

/-! ### The merged page -/

/-- What a page lists, contents and common prefixes together, in ascending order. -/
def ListPage.entries (page : ListPage) : List Str :=
  sortBy id (page.contents.map Prod.fst ++ page.commonPrefixes)

/-- The page shows the first `maxKeys` labels of `rows`. -/
structure ListPage.Shows (page : ListPage) (pre delimiter : Str) (rows : List ListedRow)
    (maxKeys : ℕ) : Prop where
  entries_eq : page.entries =
    ((delimited pre delimiter).labels (rows.map Prod.fst)).take maxKeys
  isTruncated_iff : page.isTruncated = true ↔
    maxKeys < ((delimited pre delimiter).labels (rows.map Prod.fst)).length
  nextMarker_eq : page.isTruncated = true → page.nextMarker =
    (((delimited pre delimiter).labels (rows.map Prod.fst)).take maxKeys).getLast?
  contents_mem : ∀ r ∈ page.contents, r ∈ rows ∧ commonPrefix pre delimiter r.1 = none
  commonPrefixes_mem : ∀ p ∈ page.commonPrefixes,
    ∃ r ∈ rows, commonPrefix pre delimiter r.1 = some p

/-- The items are the rows and the common prefixes. -/
theorem mem_mergedItems {contents : List ListedRow} {common : List Str} {e : Str × Item} :
    e ∈ mergedItems contents common ↔
      (∃ r ∈ contents, e = (r.1, .obj r)) ∨ ∃ p ∈ common, e = (p, .pre p) := by
  simp [mergedItems, eq_comm]

section Merge

variable {contents : List ListedRow} {common : List Str} {maxKeys : ℕ}

/-- The rows of a page are those among the first items. -/
theorem mem_contents_mergeAndTruncate {r : ListedRow} :
    r ∈ (mergeAndTruncate contents common maxKeys).contents ↔
      (r.1, Item.obj r) ∈ (mergedItems contents common).take maxKeys := by
  simp only [mergeAndTruncate, List.mem_filterMap]
  constructor
  · rintro ⟨⟨k, item⟩, he, hitem⟩
    rcases mem_mergedItems.1 (List.mem_of_mem_take he) with ⟨r', -, heq⟩ | ⟨p, -, heq⟩
    · cases heq
      cases hitem
      exact he
    · cases heq
      cases hitem
  · intro he
    exact ⟨_, he, rfl⟩

/-- The common prefixes of a page are those among the first items. -/
theorem mem_commonPrefixes_mergeAndTruncate {p : Str} :
    p ∈ (mergeAndTruncate contents common maxKeys).commonPrefixes ↔
      (p, Item.pre p) ∈ (mergedItems contents common).take maxKeys := by
  simp only [mergeAndTruncate, List.mem_filterMap]
  constructor
  · rintro ⟨⟨k, item⟩, he, hitem⟩
    rcases mem_mergedItems.1 (List.mem_of_mem_take he) with ⟨r', -, heq⟩ | ⟨p', -, heq⟩
    · cases heq
      cases hitem
    · cases heq
      cases hitem
      exact he
  · intro he
    exact ⟨_, he, rfl⟩

/-- Splitting items back into objects and common prefixes keeps their keys. -/
theorem perm_keys_of_items (items : List (Str × Item))
    (hkey : ∀ e ∈ items, (∃ r, e = (r.1, .obj r)) ∨ ∃ p, e = (p, .pre p)) :
    List.Perm ((items.filterMap fun e => e.2.obj?).map Prod.fst ++
      items.filterMap fun e => e.2.pre?) (items.map Prod.fst) := by
  induction items with
  | nil => exact .nil
  | cons e items ih =>
    have ih := ih fun e he => hkey e (List.mem_cons_of_mem _ he)
    rcases hkey e List.mem_cons_self with ⟨r, rfl⟩ | ⟨p, rfl⟩
    · exact ih.cons r.1
    · exact List.perm_middle.trans (ih.cons p)

/-- The page lists the keys of the first items. -/
theorem entries_mergeAndTruncate (hsorted : SortedBy Prod.fst (mergedItems contents common)) :
    (mergeAndTruncate contents common maxKeys).entries =
      ((mergedItems contents common).take maxKeys).map Prod.fst := by
  have hkept : SortedBy id (((mergedItems contents common).take maxKeys).map Prod.fst) :=
    List.pairwise_map.2 (List.Pairwise.sublist (List.take_sublist _ _) hsorted)
  have hperm := perm_keys_of_items ((mergedItems contents common).take maxKeys) fun e he =>
    (mem_mergedItems.1 (List.mem_of_mem_take he)).imp (fun ⟨r, _, h⟩ => ⟨r, h⟩)
      fun ⟨p, _, h⟩ => ⟨p, h⟩
  refine eq_of_mem_iff (sortedBy_sortBy ?_) hkept fun x => ?_
  · rw [List.map_id]
    exact hperm.nodup_iff.2 (hkept.imp fun h => h.ne)
  · rw [ListPage.entries, mem_sortBy]
    exact hperm.mem_iff

end Merge

/-- No content key is a common prefix, so the items have distinct keys. -/
theorem sortedBy_mergedItems {rows : List ListedRow} (hrows : SortedBy Prod.fst rows)
    (pre delimiter : Str) :
    SortedBy Prod.fst (mergedItems (groupByDelimiter rows pre delimiter).1
      (groupByDelimiter rows pre delimiter).2) := by
  obtain ⟨hcontents, hnodup, hmem⟩ := groupByDelimiter_spec rows pre delimiter
  refine sortedBy_sortBy ?_
  rw [List.map_append, List.map_map, List.map_map]
  refine List.nodup_append.2 ⟨?_, ?_, ?_⟩
  · rw [hcontents]
    exact List.Pairwise.map _ (fun _ _ h => h.ne) (hrows.filter _)
  · simpa [Function.comp_def] using hnodup
  · rintro x hx y hy rfl
    obtain ⟨r, hr, rfl⟩ := List.mem_map.1 hx
    obtain ⟨p, hp, heq⟩ := List.mem_map.1 hy
    obtain ⟨r', -, hr'⟩ := (hmem p).1 hp
    have hnone : commonPrefix pre delimiter r.1 = none := by
      rw [hcontents] at hr
      simpa using (List.mem_filter.1 hr).2
    have hp : p <+: r.1 := (show p = r.1 from heq) ▸ List.prefix_rfl
    simp [commonPrefix_of_isPrefix hr' hp] at hnone

/-- The items stand under the labels of the rows. -/
theorem map_fst_mergedItems {rows : List ListedRow} (hrows : SortedBy Prod.fst rows)
    (pre delimiter : Str) :
    (mergedItems (groupByDelimiter rows pre delimiter).1
        (groupByDelimiter rows pre delimiter).2).map Prod.fst =
      (delimited pre delimiter).labels (rows.map Prod.fst) := by
  obtain ⟨hcontents, -, hmem⟩ := groupByDelimiter_spec rows pre delimiter
  have hsorted : SortedBy id ((mergedItems (groupByDelimiter rows pre delimiter).1
      (groupByDelimiter rows pre delimiter).2).map Prod.fst) :=
    List.pairwise_map.2 (sortedBy_mergedItems hrows pre delimiter)
  refine eq_of_mem_iff hsorted (Labelling.sortedBy_labels _ _) fun x => ?_
  simp only [List.mem_map, mem_mergedItems, Labelling.mem_labels]
  constructor
  · rintro ⟨e, ⟨r, hr, rfl⟩ | ⟨p, hp, rfl⟩, rfl⟩
    · rw [hcontents, List.mem_filter, Option.isNone_iff_eq_none] at hr
      exact ⟨r.1, ⟨r, hr.1, rfl⟩, label_of_none hr.2⟩
    · obtain ⟨r, hr, hcp⟩ := (hmem p).1 hp
      exact ⟨r.1, ⟨r, hr, rfl⟩, label_of_some hcp⟩
  · rintro ⟨k, ⟨r, hr, rfl⟩, rfl⟩
    cases hcp : commonPrefix pre delimiter r.1 with
    | none =>
      refine ⟨_, .inl ⟨r, ?_, rfl⟩, (label_of_none hcp).symm⟩
      rw [hcontents]
      exact List.mem_filter.2 ⟨hr, by simp [hcp]⟩
    | some cp => exact ⟨_, .inr ⟨cp, (hmem cp).2 ⟨r, hr, hcp⟩, rfl⟩, (label_of_some hcp).symm⟩

/-- **A page shows the first labels** of the rows it is made of. -/
theorem shows_mergeAndTruncate {rows : List ListedRow} (hrows : SortedBy Prod.fst rows)
    (pre delimiter : Str) (maxKeys : ℕ) :
    (mergeAndTruncate (groupByDelimiter rows pre delimiter).1
      (groupByDelimiter rows pre delimiter).2 maxKeys).Shows pre delimiter rows maxKeys := by
  obtain ⟨hcontents, -, hmem⟩ := groupByDelimiter_spec rows pre delimiter
  have hkeys := map_fst_mergedItems hrows pre delimiter
  constructor
  · rw [entries_mergeAndTruncate (sortedBy_mergedItems hrows pre delimiter), List.map_take, hkeys]
  · rw [← hkeys, List.length_map]
    exact decide_eq_true_iff
  · intro htrunc
    rw [← hkeys, ← List.map_take, List.getLast?_map]
    exact if_pos htrunc
  · intro r hr
    have hitem := List.mem_of_mem_take (mem_contents_mergeAndTruncate.1 hr)
    rcases mem_mergedItems.1 hitem with ⟨r', hr', heq⟩ | ⟨p, -, heq⟩
    · obtain rfl : r = r' := Item.obj.inj (Prod.mk.inj heq).2
      rw [hcontents, List.mem_filter, Option.isNone_iff_eq_none] at hr'
      exact hr'
    · cases heq
  · intro p hp
    have hitem := List.mem_of_mem_take (mem_commonPrefixes_mergeAndTruncate.1 hp)
    rcases mem_mergedItems.1 hitem with ⟨r, -, heq⟩ | ⟨p', hp', heq⟩
    · cases heq
    · cases heq
      exact (hmem p).1 hp'

end Shardscape
