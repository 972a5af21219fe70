/-
# Going through a delimited listing

A client lists a bucket page by page: it calls `list_page` of `src/storage.rs` with
the marker the last page handed out, until a page is not truncated (`Traverses`).
The listing is complete (`Complete`) when the pages together list every content key
and every common prefix once, in ascending order.

The marker may be a common prefix, and the next page starts at the keys past it:
those of the common prefix itself.  So a page that ends at a common prefix with
another key than itself is followed by a page that begins with the same common
prefix (`listing_repeats`: with `max_keys` one, forever).  And the scan stops at
`SCAN_CAP` rows, after which a page whose groups fill the scan reports the end.
`listing_complete_iff` says that these two, and the panic on a prefix whose increment
is not UTF-8, are all that can go wrong.
-/

import Shardscape.Backend.Site
import Shardscape.Lib.Paging
import Shardscape.Listing.Pages

namespace Shardscape

open Lib

/-- The calls a client makes from a marker on, and the pages it gets: `start_after` is
the marker of the page before, until one is not truncated. -/
inductive Traverses (objects : Store) (bucket : Str) (pre : Option Str) (delimiter : Str)
    (maxKeys : ℕ) : Option Str → List ListPage → Prop
  | last {after : Option Str} {page : ListPage}
      (hpage : listPage objects bucket after pre (some delimiter) maxKeys = some page)
      (hlast : page.isTruncated = false) :
      Traverses objects bucket pre delimiter maxKeys after [page]
  | more {after : Option Str} {page : ListPage} {marker : Str} {pages : List ListPage}
      (hpage : listPage objects bucket after pre (some delimiter) maxKeys = some page)
      (hmore : page.isTruncated = true) (hmarker : page.nextMarker = some marker)
      (hpages : Traverses objects bucket pre delimiter maxKeys (some marker) pages) :
      Traverses objects bucket pre delimiter maxKeys after (page :: pages)

/-- The pages list every content key and every common prefix once, in ascending
order. -/
structure Complete (objects : Store) (bucket pre delimiter : Str) (pages : List ListPage) :
    Prop where
  ascending : (pages.flatMap ListPage.entries).Pairwise (· < ·)
  contents : ∀ r, (∃ page ∈ pages, r ∈ page.contents) ↔
    r ∈ objects.bucketRows bucket ∧ pre <+: r.1 ∧ commonPrefix pre delimiter r.1 = none
  commonPrefixes : ∀ cp, (∃ page ∈ pages, cp ∈ page.commonPrefixes) ↔
    ∃ r ∈ objects.bucketRows bucket, commonPrefix pre delimiter r.1 = some cp

/-- The live keys of a bucket that begin with the prefix, in ascending order. -/
def listedKeys (objects : Store) (bucket pre : Str) : List Str :=
  ((objects.bucketRows bucket).filter fun r => decide (pre <+: r.1)).map Prod.fst

/-- The keys to be listed are those of the bucket that start with the prefix. -/
theorem mem_listedKeys {objects : Store} {bucket pre key : Str} :
    key ∈ listedKeys objects bucket pre ↔
      ∃ r ∈ objects.bucketRows bucket, pre <+: r.1 ∧ r.1 = key := by
  simp [listedKeys, and_assoc]

/-- They come in order. -/
theorem sortedBy_listedKeys (objects : Store) (bucket pre : Str) :
    SortedBy id (listedKeys objects bucket pre) :=
  List.pairwise_map.2 ((objects.sortedBy_bucketRows bucket).filter _)

variable {page : ListPage}

/-- The entries of a page are its keys and its common prefixes. -/
theorem ListPage.mem_entries {x : Str} :
    x ∈ page.entries ↔ (∃ r ∈ page.contents, r.1 = x) ∨ x ∈ page.commonPrefixes := by
  simp [ListPage.entries]

variable {objects : Store} {bucket : Str} {pre : Option Str} {delimiter : Str} {maxKeys : ℕ}
  {range : Option (Str × Option Str)}

/-! ### A page of the listing is a page of labels -/

variable {after : Option Str}

/-- Past a marker that begins with the prefix come the listed keys past it. -/
theorem map_fst_rowsAfter (hrange : listRange pre = some range)
    (hafter : ∀ a ∈ after, pre.getD [] <+: a) :
    (objects.rowsAfter bucket after range).map Prod.fst =
      Labelling.keysAfter (listedKeys objects bucket (pre.getD [])) after := by
  have hall : objects.rowsAfter bucket none range =
      (objects.bucketRows bucket).filter fun r => decide (pre.getD [] <+: r.1) := by
    refine List.filter_congr fun r _ => ?_
    rw [Bool.eq_iff_iff, inListRange_none_iff hrange, decide_eq_true_iff]
  cases after with
  | none => rw [hall]; simp [Labelling.keysAfter, listedKeys]
  | some a =>
    have hadmits := (inListRange_none_iff hrange a).2 (hafter a rfl)
    rw [objects.rowsAfter_some bucket (Store.inListRange_of_lt hadmits), hall, listedKeys,
      Labelling.keysAfter, List.filter_map]
    exact congrArg (List.map Prod.fst) (List.filter_congr fun r _ => decide_eq_decide.2 Iff.rfl)

/-- What a page of the listing is, in labels of the listed keys. -/
theorem listPage_seen (hrange : listRange pre = some range)
    (hafter : ∀ a ∈ after, pre.getD [] <+: a)
    (hpage : listPage objects bucket after pre (some delimiter) maxKeys = some page) :
    page.entries = ((delimited (pre.getD []) delimiter).seen
        (listedKeys objects bucket (pre.getD [])) scanCap after).take maxKeys ∧
      (page.isTruncated = true ↔ maxKeys < ((delimited (pre.getD []) delimiter).seen
        (listedKeys objects bucket (pre.getD [])) scanCap after).length) ∧
      (page.isTruncated = true → page.nextMarker = (((delimited (pre.getD []) delimiter).seen
        (listedKeys objects bucket (pre.getD [])) scanCap after).take maxKeys).getLast?) := by
  obtain ⟨page', hpage', hshows⟩ :=
    listPage_shows objects bucket hrange after delimiter maxKeys
  obtain rfl : page' = page := Option.some.inj (hpage'.symm.trans hpage)
  have hseen : (delimited (pre.getD []) delimiter).labels
        (((objects.rowsAfter bucket after range).take scanCap).map Prod.fst) =
      (delimited (pre.getD []) delimiter).seen
        (listedKeys objects bucket (pre.getD [])) scanCap after := by
    rw [List.map_take, map_fst_rowsAfter hrange hafter, Labelling.seen]
  rw [← hseen]
  exact ⟨hshows.entries_eq, hshows.isTruncated_iff, hshows.nextMarker_eq⟩

/-- The rows a page shows, as those of the listing. -/
theorem listPage_rows (hrange : listRange pre = some range)
    (hafter : ∀ a ∈ after, pre.getD [] <+: a)
    (hpage : listPage objects bucket after pre (some delimiter) maxKeys = some page) :
    (∀ r ∈ page.contents, r ∈ objects.bucketRows bucket ∧ pre.getD [] <+: r.1 ∧
        commonPrefix (pre.getD []) delimiter r.1 = none) ∧
      ∀ cp ∈ page.commonPrefixes, ∃ r ∈ objects.bucketRows bucket,
        commonPrefix (pre.getD []) delimiter r.1 = some cp := by
  obtain ⟨page', hpage', hshows⟩ :=
    listPage_shows objects bucket hrange after delimiter maxKeys
  obtain rfl : page' = page := Option.some.inj (hpage'.symm.trans hpage)
  have hrow : ∀ r ∈ (objects.rowsAfter bucket after range).take scanCap,
      r ∈ objects.bucketRows bucket ∧ pre.getD [] <+: r.1 := by
    intro r hr
    have hmem := List.mem_of_mem_take hr
    have hkey : r.1 ∈ (objects.rowsAfter bucket after range).map Prod.fst :=
      List.mem_map_of_mem hmem
    rw [map_fst_rowsAfter hrange hafter, Labelling.mem_keysAfter, mem_listedKeys] at hkey
    obtain ⟨⟨r', -, hpre, hr'⟩, -⟩ := hkey
    exact ⟨List.mem_of_mem_filter hmem, hr' ▸ hpre⟩
  constructor
  · intro r hr
    obtain ⟨hmem, hnone⟩ := hshows.contents_mem r hr
    exact ⟨(hrow r hmem).1, (hrow r hmem).2, hnone⟩
  · intro cp hcp
    obtain ⟨r, hr, hsome⟩ := hshows.commonPrefixes_mem cp hcp
    exact ⟨r, (hrow r hr).1, hsome⟩

/-- A label seen begins with the prefix, so it can be the next marker. -/
theorem isPrefix_of_mem_seen {p x : Str}
    (hx : x ∈ (delimited p delimiter).seen (listedKeys objects bucket p) scanCap after) :
    p <+: x := by
  obtain ⟨k, hk, rfl⟩ := (Labelling.mem_labels _).1 hx
  obtain ⟨hkey, -⟩ := Labelling.mem_keysAfter.1 (List.mem_of_mem_take hk)
  obtain ⟨r, -, hpre, rfl⟩ := mem_listedKeys.1 hkey
  exact isPrefix_label hpre

/-- The pages a client gets are the pages of labels. -/
theorem Traverses.labels (hrange : listRange pre = some range)
    (hafter : ∀ a ∈ after, pre.getD [] <+: a) {pages : List ListPage}
    (h : Traverses objects bucket pre delimiter maxKeys after pages) :
    (delimited (pre.getD []) delimiter).Traverses (listedKeys objects bucket (pre.getD []))
      scanCap maxKeys after (pages.map ListPage.entries) := by
  induction h with
  | last hpage hlast =>
    obtain ⟨hentries, htrunc, -⟩ := listPage_seen hrange hafter hpage
    have hle := mt htrunc.2 (by simp [hlast])
    rw [List.map_singleton, hentries, List.take_of_length_le (not_lt.1 hle)]
    exact .last (not_lt.1 hle)
  | more hpage hmore hmarker hpages ih =>
    obtain ⟨hentries, htrunc, hnext⟩ := listPage_seen hrange hafter hpage
    have hgl := (hnext hmore).symm.trans hmarker
    rw [List.map_cons, hentries]
    refine .more (htrunc.1 hmore) hgl (ih ?_)
    rintro a ⟨⟩
    exact isPrefix_of_mem_seen (List.mem_of_mem_take (List.mem_of_getLast? hgl))

/-- And every page of labels is one a client gets. -/
theorem exists_traverses (hrange : listRange pre = some range)
    (hafter : ∀ a ∈ after, pre.getD [] <+: a) {pages : List (List Str)}
    (h : (delimited (pre.getD []) delimiter).Traverses (listedKeys objects bucket (pre.getD []))
      scanCap maxKeys after pages) :
    ∃ pages', Traverses objects bucket pre delimiter maxKeys after pages' ∧
      pages'.map ListPage.entries = pages := by
  induction h with
  | @last after hlast =>
    obtain ⟨page, hpage, -⟩ := listPage_shows objects bucket hrange after delimiter maxKeys
    obtain ⟨hentries, htrunc, -⟩ := listPage_seen hrange hafter hpage
    have hfalse : page.isTruncated = false := by
      rw [← Bool.not_eq_true, htrunc]
      exact not_lt.2 hlast
    refine ⟨[page], .last hpage hfalse, ?_⟩
    rw [List.map_singleton, hentries, List.take_of_length_le hlast]
  | @more after marker pages hmore hmarker hpages ih =>
    obtain ⟨page, hpage, -⟩ := listPage_shows objects bucket hrange after delimiter maxKeys
    obtain ⟨hentries, htrunc, hnext⟩ := listPage_seen hrange hafter hpage
    have htrue := htrunc.2 hmore
    obtain ⟨pages', hpages', rfl⟩ := ih (by
      rintro a ⟨⟩
      exact isPrefix_of_mem_seen (List.mem_of_mem_take (List.mem_of_getLast? hmarker)))
    refine ⟨page :: pages', .more hpage htrue ((hnext htrue).trans hmarker) hpages', ?_⟩
    rw [List.map_cons, hentries]

/-! ### Completeness -/

/-- What the pages of a traversal list is in the listing. -/
theorem Traverses.rows (hrange : listRange pre = some range)
    (hafter : ∀ a ∈ after, pre.getD [] <+: a) {pages : List ListPage}
    (h : Traverses objects bucket pre delimiter maxKeys after pages) (hmem : page ∈ pages) :
    (∀ r ∈ page.contents, r ∈ objects.bucketRows bucket ∧ pre.getD [] <+: r.1 ∧
        commonPrefix (pre.getD []) delimiter r.1 = none) ∧
      ∀ cp ∈ page.commonPrefixes, ∃ r ∈ objects.bucketRows bucket,
        commonPrefix (pre.getD []) delimiter r.1 = some cp := by
  induction h with
  | last hpage hlast =>
    obtain rfl := List.mem_singleton.1 hmem
    exact listPage_rows hrange hafter hpage
  | more hpage hmore hmarker hpages ih =>
    rcases List.mem_cons.1 hmem with rfl | hmem
    · exact listPage_rows hrange hafter hpage
    · obtain ⟨-, -, hnext⟩ := listPage_seen hrange hafter hpage
      have hgl := (hnext hmore).symm.trans hmarker
      refine ih ?_ hmem
      rintro a ⟨⟩
      exact isPrefix_of_mem_seen (List.mem_of_mem_take (List.mem_of_getLast? hgl))

/-- The labels of the listing: its content keys and its common prefixes. -/
theorem mem_labels_listedKeys {p x : Str} :
    x ∈ (delimited p delimiter).labels (listedKeys objects bucket p) ↔
      (∃ r ∈ objects.bucketRows bucket, p <+: r.1 ∧ commonPrefix p delimiter r.1 = none ∧
        r.1 = x) ∨
      ∃ r ∈ objects.bucketRows bucket, commonPrefix p delimiter r.1 = some x := by
  rw [Labelling.mem_labels]
  constructor
  · rintro ⟨k, hk, rfl⟩
    obtain ⟨r, hr, hpre, rfl⟩ := mem_listedKeys.1 hk
    cases hcp : commonPrefix p delimiter r.1 with
    | none => exact .inl ⟨r, hr, hpre, hcp, (label_of_none hcp).symm⟩
    | some cp => exact .inr ⟨r, hr, by rw [hcp, label_of_some hcp]⟩
  · rintro (⟨r, hr, hpre, hcp, rfl⟩ | ⟨r, hr, hcp⟩)
    · exact ⟨r.1, mem_listedKeys.2 ⟨r, hr, hpre, rfl⟩, label_of_none hcp⟩
    · have hpre := (isPrefix_commonPrefix hcp).trans (commonPrefix_isPrefix hcp)
      exact ⟨r.1, mem_listedKeys.2 ⟨r, hr, hpre, rfl⟩, label_of_some hcp⟩

/-- A traversal is complete iff its pages show the labels of the listing. -/
theorem Traverses.complete_iff (hrange : listRange pre = some range) {pages : List ListPage}
    (h : Traverses objects bucket pre delimiter maxKeys none pages) :
    Complete objects bucket (pre.getD []) delimiter pages ↔
      (pages.map ListPage.entries).flatten =
        (delimited (pre.getD []) delimiter).labels (listedKeys objects bucket (pre.getD [])) := by
  have hnone : ∀ a ∈ (none : Option Str), pre.getD [] <+: a := by simp
  have hrows := fun (page : ListPage) (hpage : page ∈ pages) => h.rows hrange hnone hpage
  constructor
  · intro hc
    have hasc : SortedBy id (pages.map ListPage.entries).flatten := by
      rw [← List.flatMap_def]
      exact hc.ascending
    refine eq_of_mem_iff hasc (Labelling.sortedBy_labels _ _) fun x => ?_
    rw [mem_labels_listedKeys, List.mem_flatten]
    simp only [List.mem_map, exists_exists_and_eq_and, ListPage.mem_entries]
    constructor
    · rintro ⟨page, hpage, ⟨r, hr, rfl⟩ | hx⟩
      · obtain ⟨hmem, hpre, hcp⟩ := (hc.contents r).1 ⟨page, hpage, hr⟩
        exact .inl ⟨r, hmem, hpre, hcp, rfl⟩
      · exact .inr ((hc.commonPrefixes x).1 ⟨page, hpage, hx⟩)
    · rintro (⟨r, hmem, hpre, hcp, rfl⟩ | hx)
      · obtain ⟨page, hpage, hr⟩ := (hc.contents r).2 ⟨hmem, hpre, hcp⟩
        exact ⟨page, hpage, .inl ⟨r, hr, rfl⟩⟩
      · obtain ⟨page, hpage, hx⟩ := (hc.commonPrefixes x).2 hx
        exact ⟨page, hpage, .inr hx⟩
  · intro hflat
    have hshown : ∀ x ∈ (delimited (pre.getD []) delimiter).labels
        (listedKeys objects bucket (pre.getD [])), ∃ page ∈ pages, x ∈ page.entries := by
      intro x hx
      rw [← hflat, List.mem_flatten] at hx
      simpa only [List.mem_map, exists_exists_and_eq_and] using hx
    refine ⟨?_, fun r => ⟨?_, ?_⟩, fun cp => ⟨?_, ?_⟩⟩
    · rw [List.flatMap_def, hflat]
      exact Labelling.sortedBy_labels _ _
    · rintro ⟨page, hpage, hr⟩
      exact (hrows page hpage).1 r hr
    · rintro ⟨hmem, hpre, hcp⟩
      obtain ⟨page, hpage, hx⟩ := hshown r.1 (mem_labels_listedKeys.2
        (.inl ⟨r, hmem, hpre, hcp, rfl⟩))
      rcases ListPage.mem_entries.1 hx with ⟨r', hr', hkey⟩ | hx
      · obtain ⟨hmem', -, -⟩ := (hrows page hpage).1 r' hr'
        exact ⟨page, hpage, by rwa [← (objects.sortedBy_bucketRows bucket).inj hmem' hmem hkey]⟩
      · -- a content key is no common prefix
        obtain ⟨r', -, hcp'⟩ := (hrows page hpage).2 r.1 hx
        simp [commonPrefix_of_isPrefix hcp' List.prefix_rfl] at hcp
    · rintro ⟨page, hpage, hx⟩
      exact (hrows page hpage).2 cp hx
    · intro hcp
      obtain ⟨page, hpage, hx⟩ := hshown cp (mem_labels_listedKeys.2 (.inr hcp))
      rcases ListPage.mem_entries.1 hx with ⟨r, hr, rfl⟩ | hx
      · obtain ⟨-, -, hnone⟩ := (hrows page hpage).1 r hr
        obtain ⟨r', -, hcp'⟩ := hcp
        simp [commonPrefix_of_isPrefix hcp' List.prefix_rfl] at hnone
      · exact ⟨page, hpage, hx⟩

/-- **When a listing is complete.**  The traversal of a delimited listing ends and lists
every content key and every common prefix once, in ascending order, exactly when the
prefix has a range and the listed keys are pageable. -/
theorem listing_complete_iff (objects : Store) (bucket : Str) (pre : Option Str)
    (delimiter : Str) {maxKeys : ℕ} (hmax : 1 ≤ maxKeys) :
    (∃ pages, Traverses objects bucket pre delimiter maxKeys none pages ∧
        Complete objects bucket (pre.getD []) delimiter pages) ↔
      listRange pre ≠ none ∧
        (delimited (pre.getD []) delimiter).Pageable
          (listedKeys objects bucket (pre.getD [])) scanCap maxKeys := by
  cases hrange : listRange pre with
  | none =>
    simp only [ne_eq, not_true_eq_false, false_and, iff_false]
    rintro ⟨pages, htrav, -⟩
    cases htrav with
    | last hpage => simp [listPage_eq_none hrange] at hpage
    | more hpage => simp [listPage_eq_none hrange] at hpage
  | some range =>
    have hnone : ∀ a ∈ (none : Option Str), pre.getD [] <+: a := by simp
    have hall : Labelling.keysAfter (listedKeys objects bucket (pre.getD [])) none =
        listedKeys objects bucket (pre.getD []) := by simp [Labelling.keysAfter]
    have hcap : 0 < scanCap := by decide
    have hstart : ∀ a ∈ (none : Option Str),
        ∃ k, (delimited (pre.getD []) delimiter).label k = a := by simp
    have hpages := (delimited (pre.getD []) delimiter).complete_iff_pageable
      (sortedBy_listedKeys objects bucket (pre.getD [])) hcap hmax hstart
    rw [hall] at hpages
    rw [← hpages]
    simp only [ne_eq, reduceCtorEq, not_false_eq_true, true_and]
    constructor
    · rintro ⟨pages, htrav, hc⟩
      exact ⟨_, htrav.labels hrange hnone, (htrav.complete_iff hrange).1 hc⟩
    · rintro ⟨labels, htrav, hflat⟩
      obtain ⟨pages, hpages, rfl⟩ := exists_traverses hrange hnone htrav
      exact ⟨pages, hpages, (hpages.complete_iff hrange).2 hflat⟩

/-- A bucket `b` with empty objects under `keys`. -/
def bucketOf (keys : List Str) : Store :=
  keys.foldl (fun s key => s.insertObject 1 (text "b") 0 key [] 0 []) (Store.new (text "a"))

/-- Four keys, of which the first two share a common prefix. -/
def fourKeys : Store := bucketOf [text "a/1", text "a/2", text "b", text "c"]

/-- Two entries a page, the common prefix first: the listing goes on after `b` and has two pages. -/
theorem listing_complete_iff_twoPages : 1 ≤ 2 ∧
    (∃ pages, Traverses fourKeys (text "b") none (text "/") 2 none pages ∧
      Complete fourKeys (text "b") [] (text "/") pages) ∧
    (listPage fourKeys (text "b") none none (some (text "/")) 2).map ListPage.nextMarker =
      some (some (text "b")) := by
  refine ⟨by decide, (listing_complete_iff _ (text "b") none (text "/") (by decide)).2
    ⟨by decide, ?_⟩, by decide +kernel⟩
  have hlen : ((delimited [] (text "/")).labels
      (listedKeys fourKeys (text "b") [])).length = 3 := by
    decide +kernel
  intro a ha hdvd
  rw [Option.getD_none, hlen] at *
  -- the pages begin at the first and at the third entry
  obtain rfl | rfl : a = 0 ∨ a = 2 := by omega
  · have hlast : ((delimited [] (text "/")).labels (listedKeys fourKeys (text "b") []))[1]? =
        some (text "b") := by decide +kernel
    refine ⟨by decide +kernel, fun _ ℓ hℓ => ?_⟩
    obtain rfl : text "b" = ℓ := Option.some.inj (hlast.symm.trans hℓ)
    unfold Labelling.Lone
    decide +kernel
  · exact ⟨by decide +kernel, fun h => absurd h (by decide)⟩

/-- The only page there is of the listing of `a/1` and `b` by ones. -/
def repeatedPage : ListPage where
  contents := []
  commonPrefixes := [text "a/"]
  isTruncated := true
  nextMarker := some (text "a/")

/-- **A listing that never ends.**  The first page of `a/1` and `b`, one entry a page, is the
common prefix `a/`, and so is every page after it: `a/1` is past the marker `a/`. -/
theorem listing_repeats : text "/" ≠ [] ∧ 1 ≤ 1 ∧
    ¬ ∃ pages, Traverses (bucketOf [text "a/1", text "b"]) (text "b") none (text "/") 1
      none pages := by
  refine ⟨by decide, le_rfl, ?_⟩
  have hfirst :
      listPage (bucketOf [text "a/1", text "b"]) (text "b") none none (some (text "/")) 1 =
      some repeatedPage := by decide +kernel
  have hnext : listPage (bucketOf [text "a/1", text "b"]) (text "b") (some (text "a/")) none
      (some (text "/")) 1 = some repeatedPage := by decide +kernel
  have hnever : ∀ after pages, after = none ∨ after = some (text "a/") →
      ¬ Traverses (bucketOf [text "a/1", text "b"]) (text "b") none (text "/") 1 after pages := by
    intro after pages hafter htrav
    induction htrav with
    | last hpage hlast =>
      rcases hafter with rfl | rfl
      · obtain rfl := Option.some.inj (hfirst.symm.trans hpage)
        cases hlast
      · obtain rfl := Option.some.inj (hnext.symm.trans hpage)
        cases hlast
    | more hpage hmore hmarker hpages ih =>
      refine ih (.inr ?_)
      rcases hafter with rfl | rfl
      · obtain rfl := Option.some.inj (hfirst.symm.trans hpage)
        exact hmarker.symm
      · obtain rfl := Option.some.inj (hnext.symm.trans hpage)
        exact hmarker.symm
  rintro ⟨pages, htrav⟩
  exact hnever none pages (.inl rfl) htrav

end Shardscape
