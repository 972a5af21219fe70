/-
# Going through the uploads of a bucket

`src/storage.rs`: `list_multipart_uploads`.

Uploads are listed in the order of key and upload id, and the marker of the next page is a key
alone.  A bucket may have many uploads of one key.  Where a page ends between two of them, the
next page starts past all of them and the rest is never listed (`skips_upload`); the pages come
to an end in any case (`exists_follows`), and they hold every upload exactly if no page ends
there (`upload_pages_complete_iff`).
-/

import Shardscape.Backend.Samples
import Shardscape.Lib.KeyPages

namespace Shardscape

open Lib Lib.Prog StorageBackend

variable {Blob : BlobStore} {s : Site Blob} {bucket : Str} {delimiter : Option Str} {maxUploads : ℤ}

/-- The uploads on a page, without the times. -/
def ListMultipartUploadsOutput.listed (out : ListMultipartUploadsOutput) : List (Str × Uuid) :=
  (out.uploads.getD []).map fun u => (u.1, u.2.1)

/-- A client lists the uploads of a bucket without a prefix, page by page, following the next key
marker until a page is not truncated: the pages it gets, from a site and a marker on. -/
inductive Follows (bucket : Str) (delimiter : Option Str) (maxUploads : ℤ) :
    Site Blob → Option Str → List ListMultipartUploadsOutput → Prop
  | last {s s' : Site Blob} {marker : Option Str} {out : ListMultipartUploadsOutput}
      (hpage : (listMultipartUploads bucket none marker delimiter (some maxUploads)).exec s =
        (s', .ok out)) (hlast : out.isTruncated = false) :
      Follows bucket delimiter maxUploads s marker [out]
  | more {s s' : Site Blob} {marker : Option Str} {out : ListMultipartUploadsOutput}
      {pages : List ListMultipartUploadsOutput}
      (hpage : (listMultipartUploads bucket none marker delimiter (some maxUploads)).exec s =
        (s', .ok out)) (hmore : out.isTruncated = true)
      (hpages : Follows bucket delimiter maxUploads s' out.nextKeyMarker pages) :
      Follows bucket delimiter maxUploads s marker (out :: pages)

/-! ### One page -/

/-- The uploads of a bucket past a marker. -/
def Store.uploadsPast (s : Store) (bucket : Str) (marker : Option Str) : List (Str × Uuid) :=
  s.uploadsMatching bucket (fun _ => true) marker

/-- Each upload gets a time, and nothing else changes. -/
theorem wp_stampUploads {ε : Type} (uploads : List (Str × Uuid)) (s : Site Blob) :
    wp (stampUploads uploads : Site.SProg Blob ε _) (fun r s' => s'.store = s.store ∧
      ∃ l, r = .ok l ∧ l.map (fun u => (u.1, u.2.1)) = uploads) s := by
  induction uploads generalizing s with
  | nil => exact ⟨rfl, [], rfl, rfl⟩
  | cons u uploads ih =>
    refine wp_bind.2 ((Site.wp_ask _ _).2 (wp_bind.2 (wp_mono (ih _) ?_)))
    rintro r s' ⟨hs', l, rfl, hl⟩
    exact ⟨hs', _, rfl, by rw [List.map_cons, hl]⟩

/-- **A page**: the first uploads past the marker, and the key of the last of them. -/
structure IsPageOf (uploads : List (Str × Uuid)) (m : ℕ) (out : ListMultipartUploadsOutput) :
    Prop where
  listed : out.listed = uploads.take m
  isTruncated : out.isTruncated = decide (m < uploads.length)
  nextKeyMarker : out.isTruncated = true →
    out.nextKeyMarker = (uploads.take m).getLast?.map Prod.fst

/-- The answer is one page of the uploads past the marker. -/
theorem wp_listMultipartUploads (bucket : Str) (marker delimiter : Option Str)
    (hmax : 1 ≤ maxUploads) :
    wp (listMultipartUploads bucket none marker delimiter (some maxUploads)) (fun r s' =>
      s'.store = s.store ∧
        ∃ out, r = .ok out ∧
          IsPageOf (s.store.uploadsPast bucket marker) maxUploads.toNat out) s := by
  have hlimit : pageLimit (some maxUploads) = maxUploads.toNat := by
    rw [pageLimit, Option.getD_some, max_eq_left hmax]
  have hrows : s.store.listMultipartUploads bucket none marker maxUploads.toNat =
      (s.store.uploadsPast bucket marker).take (maxUploads.toNat + 1) :=
    s.store.listMultipartUploads_eq bucket none marker maxUploads.toNat
  unfold listMultipartUploads
  rw [hlimit]
  refine wp_bind.2 ((Site.wp_db _ _).2 ?_)
  dsimp only
  rw [hrows]
  generalize s.store.uploadsPast bucket marker = uploads
  refine wp_bind.2 (wp_mono (wp_stampUploads _ s) ?_)
  rintro r s' ⟨hs', l, rfl, hl⟩
  rw [List.take_take, Nat.min_eq_left (Nat.le_succ _)] at hl
  refine (wp_pure _).2 ⟨hs', _, rfl, ?_, decide_eq_decide.2 ?_, fun hmore => ?_⟩
  · rw [← hl, ListMultipartUploadsOutput.listed]
    cases l <;> rfl
  · rw [List.length_take]
    omega
  · rw [← hl, List.getLast?_map, Option.map_map]
    exact if_pos hmore

/-- The same of a response. -/
theorem isPageOf_of_exec (hmax : 1 ≤ maxUploads) {s' : Site Blob} {marker : Option Str}
    {out : ListMultipartUploadsOutput}
    (h : (listMultipartUploads bucket none marker delimiter (some maxUploads)).exec s =
      (s', .ok out)) :
    s'.store = s.store ∧ IsPageOf (s.store.uploadsPast bucket marker) maxUploads.toNat out := by
  have hspec := wp_listMultipartUploads (s := s) bucket marker delimiter hmax
  unfold wp at hspec
  rw [h] at hspec
  obtain ⟨hs', _, ⟨⟩, hout⟩ := hspec
  exact ⟨hs', hout⟩

/-! ### All pages -/

/-- The uploads come in the order of their keys. -/
theorem Store.pairwise_uploadsPast (st : Store) (bucket : Str) (marker : Option Str) :
    (st.uploadsPast bucket marker).Pairwise fun u v => u.1 ≤ v.1 := by
  refine (st.sortedBy_uploadsMatching bucket _ marker).imp fun {u v} hlt => ?_
  rcases Prod.Lex.toLex_lt_toLex.1 hlt with h | ⟨h, -⟩
  · exact h.le
  · exact h.le

/-- Each upload comes once. -/
theorem Store.nodup_uploadsPast (st : Store) (bucket : Str) (marker : Option Str) :
    (st.uploadsPast bucket marker).Nodup := by
  refine (st.sortedBy_uploadsMatching bucket _ marker).imp fun {u v} hlt heq => ?_
  rw [heq] at hlt
  exact lt_irrefl _ hlt

/-- The uploads past the last key of a page. -/
theorem Store.uploadsPast_next (st : Store) (bucket : Str) (marker : Option Str) {u : Str × Uuid}
    (hu : u ∈ st.uploadsPast bucket marker) :
    st.uploadsPast bucket (some u.1) = past Prod.fst u (st.uploadsPast bucket marker) := by
  have hmarker := (mem_uploadsMatching.1 hu).2.2
  refine eq_of_mem_iff (st.sortedBy_uploadsMatching bucket _ _)
    ((st.sortedBy_uploadsMatching bucket _ _).filter _) fun v => Iff.trans ?_ mem_past.symm
  rw [uploadsPast, uploadsPast, mem_uploadsMatching, mem_uploadsMatching]
  constructor
  · rintro ⟨hrow, -, hlt⟩
    have hlt := hlt u.1 rfl
    exact ⟨⟨hrow, rfl, fun m hm => (hmarker m hm).trans hlt⟩, hlt⟩
  · rintro ⟨⟨hrow, -, -⟩, hlt⟩
    refine ⟨hrow, rfl, ?_⟩
    rintro m ⟨⟩
    exact hlt

/-- What a client gets are pages by key. -/
theorem Follows.pages (hmax : 1 ≤ maxUploads) {marker : Option Str}
    {pages : List ListMultipartUploadsOutput}
    (h : Follows bucket delimiter maxUploads s marker pages) :
    Pages Prod.fst maxUploads.toNat (s.store.uploadsPast bucket marker)
      (pages.map ListMultipartUploadsOutput.listed) := by
  induction h with
  | @last s s' marker out hpage hlast =>
    obtain ⟨-, hout⟩ := isPageOf_of_exec hmax hpage
    rw [hout.isTruncated, decide_eq_false_iff_not, not_lt] at hlast
    rw [List.map_singleton, hout.listed, List.take_of_length_le hlast]
    exact .last hlast
  | @more s s' marker out pages hpage hmore hpages ih =>
    obtain ⟨hs', hout⟩ := isPageOf_of_exec hmax hpage
    have hnext := hout.nextKeyMarker hmore
    rw [hout.isTruncated, decide_eq_true_iff] at hmore
    have hlast := getLast?_take_of_lt (m := maxUploads.toNat) (by omega) hmore
    rw [hlast, Option.map_some] at hnext
    rw [hs', hnext, s.store.uploadsPast_next bucket marker (List.getElem_mem _)] at ih
    rw [List.map_cons, hout.listed]
    exact .more hmore hlast ih

/-- And it gets them all. -/
theorem exists_follows_of_pages (hmax : 1 ≤ maxUploads) {uploads : List (Str × Uuid)}
    {ps : List (List (Str × Uuid))} (h : Pages Prod.fst maxUploads.toNat uploads ps) :
    ∀ (s : Site Blob) (marker : Option Str), s.store.uploadsPast bucket marker = uploads →
      ∃ pages, Follows bucket delimiter maxUploads s marker pages ∧
        pages.map ListMultipartUploadsOutput.listed = ps := by
  induction h with
  | @last uploads hlast =>
    rintro s marker rfl
    obtain ⟨-, out, hok, hout⟩ := wp_listMultipartUploads (s := s) bucket marker delimiter hmax
    refine ⟨[out], .last (Prod.ext rfl hok) ?_, ?_⟩
    · rw [hout.isTruncated, decide_eq_false_iff_not, not_lt]
      exact hlast
    · rw [List.map_singleton, hout.listed, List.take_of_length_le hlast]
  | @more uploads a ps hmore hmarker hps ih =>
    rintro s marker rfl
    obtain ⟨hs', out, hok, hout⟩ := wp_listMultipartUploads (s := s) bucket marker delimiter hmax
    have htruncated : out.isTruncated = true := by
      rw [hout.isTruncated]
      exact decide_eq_true hmore
    have hnext := hout.nextKeyMarker htruncated
    rw [hmarker, Option.map_some] at hnext
    have hmem := List.mem_of_mem_take (List.mem_of_getLast? hmarker)
    obtain ⟨pages, hpages, rfl⟩ := ih _ out.nextKeyMarker
      (by rw [hs', hnext, s.store.uploadsPast_next bucket marker hmem])
    exact ⟨out :: pages, .more (Prod.ext rfl hok) htruncated hpages,
      by rw [List.map_cons, hout.listed]⟩

/-- **The pages come to an end**, whatever is uploaded. -/
theorem exists_follows (hmax : 1 ≤ maxUploads) (s : Site Blob) :
    ∃ pages, Follows bucket delimiter maxUploads s none pages := by
  obtain ⟨ps, hps⟩ := exists_pages Prod.fst (by omega : 0 < maxUploads.toNat)
    (s.store.uploadsPast bucket none)
  obtain ⟨pages, hpages, -⟩ := exists_follows_of_pages hmax hps s none rfl
  exact ⟨pages, hpages⟩

/-- Every upload of the bucket is on the pages, once. -/
def ListsAll (st : Store) (bucket : Str) (pages : List ListMultipartUploadsOutput) : Prop :=
  (pages.flatMap ListMultipartUploadsOutput.listed).Nodup ∧
    ∀ u, u ∈ pages.flatMap ListMultipartUploadsOutput.listed ↔
      st.getMultipartKey bucket u.2 = some u.1

/-- Pages by key list nothing twice and nothing else, so they list all if they list enough. -/
theorem listsAll_iff (hmax : 1 ≤ maxUploads) {pages : List ListMultipartUploadsOutput}
    (h : Follows bucket delimiter maxUploads s none pages) :
    ListsAll s.store bucket pages ↔ ∀ u ∈ s.store.uploadsPast bucket none,
      u ∈ (pages.map ListMultipartUploadsOutput.listed).flatten := by
  have hsub := (h.pages hmax).sublist (by omega) (s.store.pairwise_uploadsPast bucket none)
  have hmem : ∀ u, u ∈ s.store.uploadsPast bucket none ↔
      s.store.getMultipartKey bucket u.2 = some u.1 := by
    intro u
    rw [Store.uploadsPast, Store.mem_uploadsMatching]
    simp
  rw [ListsAll, List.flatMap_def]
  constructor
  · rintro ⟨-, hall⟩ u hu
    exact (hall u).2 ((hmem u).1 hu)
  · intro hall
    refine ⟨(s.store.nodup_uploadsPast bucket none).sublist hsub,
      fun u => ⟨fun hu => ?_, fun hu => ?_⟩⟩
    · exact (hmem u).1 (hsub.subset hu)
    · exact hall u ((hmem u).2 hu)

/-- **When a client that follows the markers gets every upload once.**  Exactly if, in the order
of key and upload id, no page of `max_uploads` ends between two uploads of one key. -/
theorem upload_pages_complete_iff (s : Site Blob) (bucket : Str) (delimiter : Option Str)
    (maxUploads : ℤ) (hmax : 1 ≤ maxUploads) :
    (∃ pages, Follows bucket delimiter maxUploads s none pages ∧ ListsAll s.store bucket pages) ↔
      Aligned Prod.fst maxUploads.toNat (s.store.uploadsPast bucket none) := by
  rw [← pages_complete_iff (s.store.pairwise_uploadsPast bucket none)
    (s.store.nodup_uploadsPast bucket none) (by omega)]
  constructor
  · rintro ⟨pages, hfollows, hall⟩
    exact ⟨_, hfollows.pages hmax, (listsAll_iff hmax hfollows).1 hall⟩
  · rintro ⟨ps, hps, hall⟩
    obtain ⟨pages, hfollows, rfl⟩ := exists_follows_of_pages hmax hps s none rfl
    exact ⟨pages, hfollows, (listsAll_iff hmax hfollows).2 hall⟩

/-- A site with three uploads, two of them of one key. -/
def threeUploads : Site localBlob :=
  { freshSite with
    store := ((freshSite.store.insertMultipart (text "b") 1 (text "k")).insertMultipart (text "b") 2
      (text "k")).insertMultipart (text "b") 3 (text "l") }

/-- Two of the three uploads are of one key. -/
theorem uploadsPast_threeUploads : threeUploads.store.uploadsPast (text "b") none =
    [(text "k", 1), (text "k", 2), (text "l", 3)] := by
  decide +kernel

/-- `upload_pages_complete_iff` on pages of two: both uploads of the one key are on the first. -/
theorem upload_pages_complete_two :
    ∃ pages, Follows (text "b") none 2 threeUploads none pages ∧
      ListsAll threeUploads.store (text "b") pages := by
  refine (upload_pages_complete_iff threeUploads (text "b") none 2 (by decide)).2 ?_
  rw [uploadsPast_threeUploads]
  intro j u v hj hu hv
  obtain ⟨hlt, -⟩ := List.getElem?_eq_some_iff.1 hv
  obtain rfl : j = 1 := by
    simp at hlt
    omega
  cases hu
  cases hv
  decide +kernel

/-- **An upload that is never listed.**  On pages of one, the second upload of the first key is
skipped. -/
theorem skips_upload :
    ¬ ∃ pages, Follows (text "b") none 1 threeUploads none pages ∧
      ListsAll threeUploads.store (text "b") pages := by
  rintro ⟨pages, hfollows, hall⟩
  have hmem := (listsAll_iff (by decide) hfollows).1 hall (text "k", 2)
    (by rw [uploadsPast_threeUploads]; decide +kernel)
  have hpages := hfollows.pages (by decide)
  rw [uploadsPast_threeUploads] at hpages
  generalize pages.map ListMultipartUploadsOutput.listed = ps at hmem hpages
  cases hpages with
  | last hlast => exact absurd hlast (by decide)
  | @more _ a ps hmore hmarker hps =>
    -- it is not on the first page, and the others are past its key
    obtain rfl : (text "k", 1) = a := Option.some.inj hmarker
    rw [List.flatten_cons] at hmem
    rcases List.mem_append.1 hmem with hmem | hmem
    · exact absurd hmem (by decide +kernel)
    · have hlist := threeUploads.store.pairwise_uploadsPast (text "b") none
      rw [uploadsPast_threeUploads] at hlist
      have hpast := (hps.sublist (by decide) (hlist.filter _)).subset hmem
      exact lt_irrefl _ (mem_past.1 hpast).2

end Shardscape
