/-
# Keys past the cap

The delimited branch of `list_page` of `src/storage.rs`.  A page is made of the first
`SCAN_CAP` rows past the marker, and `is_truncated` says whether there are more entries in
those rows.  So a page that is not truncated covers every key exactly if no key past the cap
is out of the common prefixes of the rows before it (`listPage_covers_iff`): a hundred
thousand keys under `a/` hide the key `b` (`listPage_hides`).
-/

import Shardscape.Listing.StorePage

namespace Shardscape

open Lib

variable {objects : Store} {bucket : Str} {startAfter pre' : Option Str} {pre delimiter : Str}
  {range : Option (Str × Option Str)} {maxKeys : ℕ}

/-- A page that is not truncated covers every live key with the prefix past the marker: it
is among the contents or starts with one of the common prefixes. -/
def Covers (objects : Store) (bucket : Str) (startAfter pre : Option Str)
    (page : ListPage) : Prop :=
  page.isTruncated = false → ∀ r, objects.ToList bucket startAfter pre r →
    (∃ r' ∈ page.contents, r'.1 = r.1) ∨ ∃ cp ∈ page.commonPrefixes, cp <+: r.1

/-- A page that is not truncated shows all of the rows it is made of. -/
theorem shown_of_not_truncated {rows : List ListedRow} (hrows : SortedBy Prod.fst rows)
    (hall : ((delimited pre delimiter).labels (rows.map Prod.fst)).length ≤ maxKeys) :
    (∀ r, r ∈ (mergeAndTruncate (groupByDelimiter rows pre delimiter).1
        (groupByDelimiter rows pre delimiter).2 maxKeys).contents ↔
      r ∈ rows ∧ commonPrefix pre delimiter r.1 = none) ∧
    ∀ cp, cp ∈ (mergeAndTruncate (groupByDelimiter rows pre delimiter).1
        (groupByDelimiter rows pre delimiter).2 maxKeys).commonPrefixes ↔
      ∃ r ∈ rows, commonPrefix pre delimiter r.1 = some cp := by
  obtain ⟨hcontents, -, hmem⟩ := groupByDelimiter_spec rows pre delimiter
  rw [← map_fst_mergedItems hrows, List.length_map] at hall
  refine ⟨fun r => ?_, fun cp => ?_⟩
  · rw [mem_contents_mergeAndTruncate, List.take_of_length_le hall, mem_mergedItems, hcontents]
    simp only [List.mem_filter, Option.isNone_iff_eq_none]
    constructor
    · rintro (⟨r', hr', heq⟩ | ⟨_, -, heq⟩)
      · rwa [Item.obj.inj (Prod.mk.inj heq).2]
      · cases heq
    · exact fun hr => .inl ⟨r, hr, rfl⟩
  · rw [mem_commonPrefixes_mergeAndTruncate, List.take_of_length_le hall, mem_mergedItems, ← hmem]
    constructor
    · rintro (⟨_, -, heq⟩ | ⟨cp', hcp', heq⟩)
      · cases heq
      · rwa [Item.pre.inj (Prod.mk.inj heq).2]
    · exact fun hcp => .inr ⟨cp, hcp, rfl⟩

/-- The condition on the rows the scan of a prefix range goes through: the first `SCAN_CAP`
have more than `maxKeys` entries, or every later one with the prefix starts with a common
prefix of one of them. -/
def CapCovers (pre delimiter : Str) (maxKeys : ℕ) (rows : List ListedRow) : Prop :=
  maxKeys < ((delimited pre delimiter).labels ((rows.take scanCap).map Prod.fst)).length ∨
    ∀ r ∈ rows.drop scanCap, pre <+: r.1 →
      ∃ r' ∈ rows.take scanCap, ∃ cp, commonPrefix pre delimiter r'.1 = some cp ∧ cp <+: r.1

/-- The page of a prefix that has a range. -/
theorem listPage_eq_some (objects : Store) (bucket : Str) (hrange : listRange pre' = some range)
    (startAfter : Option Str) (delimiter : Str) (maxKeys : ℕ) :
    listPage objects bucket startAfter pre' (some delimiter) maxKeys =
      some (mergeAndTruncate
        (groupByDelimiter ((objects.rowsAfter bucket startAfter range).take scanCap) (pre'.getD [])
          delimiter).1
        (groupByDelimiter ((objects.rowsAfter bucket startAfter range).take scanCap) (pre'.getD [])
          delimiter).2 maxKeys) := by
  rw [listPage, gather_start hrange, Option.map_some]

/-- The rows of a scan that start with the prefix are those to be listed. -/
theorem mem_rowsAfter_iff (hrange : listRange pre' = some range) {r : ListedRow}
    (hr : pre'.getD [] <+: r.1) : r ∈ objects.rowsAfter bucket startAfter range ↔
      objects.ToList bucket startAfter pre' r := by
  rw [← Store.mem_rightRows hrange, Store.rightRows, List.mem_filter]
  simp [hr]

/-- The page of a prefix range, over the rows of the scan. -/
theorem covers_iff (hrange : listRange pre' = some range) {page : ListPage}
    (hpage : listPage objects bucket startAfter pre' (some delimiter) maxKeys = some page) :
    Covers objects bucket startAfter pre' page ↔
      CapCovers (pre'.getD []) delimiter maxKeys (objects.rowsAfter bucket startAfter range) := by
  rw [listPage_eq_some objects bucket hrange, Option.some.injEq] at hpage
  subst hpage
  have hsorted := objects.sortedBy_rowsAfter bucket startAfter range
  have htake := List.Pairwise.sublist (List.take_sublist scanCap _) hsorted
  have htrunc := (shows_mergeAndTruncate htake (pre'.getD []) delimiter maxKeys).isTruncated_iff
  by_cases hmore : maxKeys < ((delimited (pre'.getD []) delimiter).labels
      (((objects.rowsAfter bucket startAfter range).take scanCap).map Prod.fst)).length
  · simp only [Covers, htrunc.2 hmore, CapCovers, hmore, true_or, iff_true]
    exact nofun
  -- the page shows all rows of the scan
  obtain ⟨hcontents, hcommon⟩ := shown_of_not_truncated htake (not_lt.1 hmore)
  have hlast := Bool.eq_false_iff.2 (mt htrunc.1 hmore)
  simp only [Covers, hlast, forall_const, CapCovers, hmore, false_or, hcontents, hcommon]
  constructor
  · intro hcovers r hr hpre
    rcases hcovers r ((mem_rowsAfter_iff hrange hpre).1 (List.mem_of_mem_drop hr)) with
      ⟨r', ⟨hr', -⟩, hkey⟩ | ⟨cp, ⟨r', hr', hcp⟩, hisPrefix⟩
    · exact absurd hkey (List.Pairwise.rel_of_mem_take_of_mem_drop hsorted hr' hr).ne
    · exact ⟨r', hr', cp, hcp, hisPrefix⟩
  · intro hcap r hr
    have hrow := (mem_rowsAfter_iff hrange hr.2.1).2 hr
    rw [← List.take_append_drop scanCap (objects.rowsAfter bucket startAfter range),
      List.mem_append] at hrow
    rcases hrow with hrow | hrow
    · cases hcp : commonPrefix (pre'.getD []) delimiter r.1 with
      | none => exact .inl ⟨r, ⟨hrow, hcp⟩, rfl⟩
      | some cp => exact .inr ⟨cp, ⟨r, hrow, hcp⟩, commonPrefix_isPrefix hcp⟩
    · obtain ⟨r', hr', cp, hcp, hisPrefix⟩ := hcap r hrow hr.2.1
      exact .inr ⟨cp, ⟨r', hr', hcp⟩, hisPrefix⟩

/-- **When a delimited page under-reports.**  Every page `list_page` returns that is not
truncated covers every live key with the prefix past the marker, exactly if the first
`SCAN_CAP` rows of the scan have more than `max_keys` entries, or every later row with the
prefix is under a common prefix of theirs. -/
theorem listPage_covers_iff (objects : Store) (bucket : Str) (startAfter pre : Option Str)
    (delimiter : Str) (maxKeys : ℕ) :
    (∀ page, listPage objects bucket startAfter pre (some delimiter) maxKeys = some page →
        Covers objects bucket startAfter pre page) ↔
      ∀ range, listRange pre = some range →
        CapCovers (pre.getD []) delimiter maxKeys
          (objects.rowsAfter bucket startAfter range) := by
  constructor
  · intro hcovers range hrange
    have hpage := listPage_eq_some objects bucket hrange startAfter delimiter maxKeys
    exact (covers_iff hrange hpage).1 (hcovers _ hpage)
  · intro hcap page hpage
    cases hrange : listRange pre with
    | none => rw [listPage_eq_none hrange] at hpage; cases hpage
    | some range => exact (covers_iff hrange hpage).2 (hcap range hrange)

/-! ### A bucket with more keys than the cap -/

/-- The rows of `bucketOf`. -/
theorem lookup_bucketOf (keys : List Str) (key : Str) :
    (bucketOf keys).objects.lookup (text "b", key) =
      if key ∈ keys then some (Store.objectRow (Store.encodeBlocks []) 0 [] 0 false 1)
      else none := by
  induction keys using List.reverseRecOn with
  | nil => rfl
  | append_singleton keys k ih =>
    have hfold : bucketOf (keys ++ [k]) =
        (bucketOf keys).insertObject 1 (text "b") 0 k [] 0 [] := List.foldl_concat _ _ _ _
    have hrow : ((bucketOf keys).insertObject 1 (text "b") 0 k [] 0 []).objects.lookup
          (text "b", key) =
        if (text "b", key) = (text "b", k) then
          Lww.merge ObjectRow.updatedAt ((bucketOf keys).objects.lookup (text "b", k))
            (Store.objectRow (Store.encodeBlocks []) 0 [] 0 false 1)
        else (bucketOf keys).objects.lookup (text "b", key) :=
      Store.lookup_putObjectRow _ _ _ _ _
    rw [hfold, hrow]
    by_cases hk : key = k
    · subst hk
      rw [if_pos rfl, ih]
      split
      · simp [Lww.merge]
      · simp
    · simp [hk, ih]

/-- The bucket of keys in ascending order lists them. -/
theorem bucketRows_bucketOf {keys : List Str} (hkeys : keys.Pairwise (· < ·)) :
    (bucketOf keys).bucketRows (text "b") = keys.map fun key => (key, 0, []) := by
  refine eq_of_mem_iff (Store.sortedBy_bucketRows _ _) (List.pairwise_map.2 hkeys) fun r => ?_
  obtain ⟨key, rest⟩ := r
  rw [Store.mem_bucketRows, lookup_bucketOf, List.mem_map]
  constructor
  · rintro ⟨row, hrow, -, hrest⟩
    rw [Option.ite_none_right_eq_some] at hrow
    obtain ⟨hkey, rfl⟩ := hrow.imp_right Option.some.inj
    exact ⟨key, hkey, Prod.ext rfl hrest.symm⟩
  · rintro ⟨k, hk, heq⟩
    obtain ⟨rfl, rfl⟩ := Prod.mk.inj heq
    exact ⟨_, if_pos hk, rfl, rfl⟩

/-- As many keys under `a/` as the scan takes: `a/`, `a/x`, `a/xx` and so on. -/
def folderKeys : List Str :=
  (List.range scanCap).map fun i => text "a/" ++ List.replicate i 120

/-- And the key `b` after them. -/
def cappedKeys : List Str := folderKeys ++ [text "b"]

/-- The keys of the bucket come in order. -/
theorem pairwise_cappedKeys : cappedKeys.Pairwise (· < ·) := by
  refine List.pairwise_append.2 ⟨?_, List.pairwise_singleton _ _, fun k hk k' hk' => ?_⟩
  · refine List.pairwise_map.2 (List.pairwise_lt_range.imp fun {i j} hij => ?_)
    rw [append_lt_append_iff]
    have hsplit : List.replicate j (120 : Byte) =
        List.replicate i 120 ++ List.replicate (j - i) 120 := by
      rw [List.replicate_append_replicate, Nat.add_sub_cancel' hij.le]
    refine lt_of_le_of_ne (le_of_isPrefix (hsplit ▸ List.prefix_append _ _)) fun h => ?_
    simpa [hij.ne] using congrArg List.length h
  · obtain ⟨i, -, rfl⟩ := List.mem_map.1 hk
    obtain rfl := List.mem_singleton.1 hk'
    exact List.Lex.rel (by decide)

/-- All of them are in the folder. -/
theorem isPrefix_of_mem_folderKeys {k : Str} (hk : k ∈ folderKeys) : text "a/" <+: k := by
  obtain ⟨i, -, rfl⟩ := List.mem_map.1 hk
  exact List.prefix_append _ _

/-- **A page that hides a key.**  Of a hundred thousand keys under `a/` and the key `b`, the
page by `/` of ten entries is not truncated, and shows neither `b` nor a part of it. -/
theorem listPage_hides : 1 ≤ 10 ∧
    ¬ ∀ page, listPage (bucketOf cappedKeys) (text "b") none none (some (text "/")) 10 = some page →
      Covers (bucketOf cappedKeys) (text "b") none none page := by
  refine ⟨by decide, fun hcovers => ?_⟩
  have hpage := listPage_eq_some (bucketOf cappedKeys) (text "b")
    (show listRange none = some none from rfl) none (text "/") 10
  have hrows : (bucketOf cappedKeys).rowsAfter (text "b") none none =
      cappedKeys.map fun key => (key, 0, []) := by
    rw [Store.rowsAfter, bucketRows_bucketOf pairwise_cappedKeys]
    exact List.filter_eq_self.2 fun _ _ => rfl
  have hlen : folderKeys.length = scanCap := by rw [folderKeys, List.length_map, List.length_range]
  have hfolder : ∀ k ∈ folderKeys, commonPrefix [] (text "/") k = some (text "a/") := fun k hk =>
    commonPrefix_of_isPrefix (by decide : commonPrefix [] (text "/") (text "a/") = some (text "a/"))
      (isPrefix_of_mem_folderKeys hk)
  have hcap := (covers_iff (show listRange none = some none from rfl) hpage).1 (hcovers _ hpage)
  rw [hrows, CapCovers, ← List.map_take, ← List.map_drop, cappedKeys, List.take_left' hlen,
    List.drop_left' hlen] at hcap
  rcases hcap with hmore | hcap
  · -- all rows of the scan stand under one label
    have hkeys :
        (folderKeys.map fun key => (key, (0 : ℤ), ([] : Str))).map Prod.fst = folderKeys := by
      rw [List.map_map]
      exact List.map_id _
    have hone : ∀ ℓ ∈ (delimited [] (text "/")).labels folderKeys, ℓ = text "a/" := by
      intro ℓ hℓ
      obtain ⟨k, hk, rfl⟩ := (Labelling.mem_labels _).1 hℓ
      exact label_of_some (hfolder k hk)
    have hsorted := Labelling.sortedBy_labels (delimited [] (text "/")) folderKeys
    rw [SortedBy, List.eq_replicate_of_mem hone, List.pairwise_replicate] at hsorted
    rw [Option.getD_none, hkeys] at hmore
    rcases hsorted with hlen | hlt
    · omega
    · exact lt_irrefl _ hlt
  · obtain ⟨r', hr', cp, hcp, hisPrefix⟩ := hcap (text "b", 0, []) (by simp) List.nil_prefix
    obtain ⟨k, hk, rfl⟩ := List.mem_map.1 hr'
    rw [Option.getD_none, hfolder k hk, Option.some.injEq] at hcp
    subst hcp
    exact absurd hisPrefix (by decide)

end Shardscape
