/-
# Going through a bucket while it changes

A client lists a bucket without a delimiter, page by page, following the next marker of
`list_page` of `src/storage.rs`, while objects are inserted into and deleted from the
store between its requests (`Walk.step`): on both sides of the marker, the key of the
marker among them.

A marker is the last key of a page, so it starts with the prefix and no key lies between
the two: every page is the one `list_objects` is to return (`isPage_of_isPrefix`).  What a
page leaves out before its marker was not live when the page was read, and what comes past
the marker is for the next page to read.  So the keys ascend over all pages, and a key that
every page finds live is on one of them (`Walk.run_lists`).
-/

import Shardscape.Listing.StorePage
import Shardscape.Store.Samples

namespace Shardscape

open Lib

/-- What happens while a client goes through a bucket. -/
inductive WalkEvent where
  | insertObject (ts : ℤ) (bucket : Str) (shardId : ℤ) (key : Str) (blocks : List Bytes) (size : ℤ)
      (etag : Str)
  | deleteObject (ts : ℤ) (bucket key : Str)
  | nextPage

/-- The store, and how far the client is: the marker to ask with, the pages it has, each
with the store it was read from, and whether the last of them was not truncated. -/
structure Walk where
  store : Store
  startAfter : Option Str
  pages : List (Store × ListPage)
  finished : Bool

namespace Walk

/-- No page read yet, and no marker. -/
def start (s : Store) : Walk where
  store := s
  startAfter := none
  pages := []
  finished := false

/-- One event.  The client asks for pages until one is not truncated. -/
def step (B : Blake3) (bucket : Str) (pre : Option Str) (maxKeys : ℕ) (w : Walk) :
    WalkEvent → Walk
  | .insertObject ts b shardId key blocks size etag =>
    { w with store := w.store.insertObject ts b shardId key blocks size etag }
  | .deleteObject ts b key => { w with store := w.store.deleteObject B ts b key }
  | .nextPage =>
    if w.finished then w
    else match listPage w.store bucket w.startAfter pre none maxKeys with
      | none => w
      | some page =>
        { w with
          startAfter := page.nextMarker
          pages := w.pages ++ [(w.store, page)]
          finished := !page.isTruncated }

/-- The keys of the pages, in the order they were returned. -/
def keys (w : Walk) : List Str := w.pages.flatMap fun e => e.2.contents.map Prod.fst

/-- The key was live in every store a page was read from. -/
def LiveThroughout (w : Walk) (bucket key : Str) : Prop :=
  ∀ e ∈ w.pages, (e.1.getObject bucket key).isSome = true

end Walk

/-! ### One page -/

/-- A page without a delimiter, past a marker that starts with the prefix or from the
start, is the one `list_objects` is to return. -/
theorem isPage_of_isPrefix {s : Store} {bucket : Str} {after pre : Option Str} {maxKeys : ℕ}
    {page : ListPage} (hafter : ∀ a ∈ after, pre.getD [] <+: a)
    (hpage : listPage s bucket after pre none maxKeys = some page) :
    s.IsPage bucket after pre maxKeys (page.contents, page.isTruncated) ∧
      page.nextMarker =
        if page.isTruncated then page.contents.getLast?.map Prod.fst else none := by
  rw [listPage, Store.listObjects_eq, Option.map_map, Option.map_eq_some_iff] at hpage
  obtain ⟨range, hrange, rfl⟩ := hpage
  refine ⟨(Store.isPage_listObjects_iff hrange maxKeys).2 (.inl fun a ha r _ hbetween => ?_), rfl⟩
  exact (le_of_isPrefix (hafter a ha)).not_gt (hbetween.1.trans hbetween.2)

section Page

variable {s : Store} {bucket : Str} {after pre : Option Str} {n : ℕ} {contents : List ListedRow}
  {isTruncated : Bool}

/-- What is on a page, in ascending order, is to be listed. -/
theorem Store.IsPage.listed (h : s.IsPage bucket after pre n (contents, isTruncated)) :
    SortedBy Prod.fst contents ∧ ∀ r ∈ contents, s.ToList bucket after pre r := by
  obtain ⟨rows, hrows, hmem, heq⟩ := h
  obtain ⟨rfl, -⟩ := Prod.mk.inj heq
  exact ⟨List.Pairwise.sublist (List.take_sublist _ _) hrows,
    fun r hr => (hmem r).1 (List.mem_of_mem_take hr)⟩

/-- A page that is not truncated lists everything that is to be listed. -/
theorem Store.IsPage.last (h : s.IsPage bucket after pre n (contents, false)) {r : ListedRow}
    (hr : s.ToList bucket after pre r) : r ∈ contents := by
  obtain ⟨rows, -, hmem, heq⟩ := h
  obtain ⟨rfl, hlen⟩ := Prod.mk.inj heq
  rw [List.take_of_length_le (not_lt.1 (of_decide_eq_false hlen.symm))]
  exact (hmem r).2 hr

/-- A truncated page has a last row, and lists everything that is to be listed up to it. -/
theorem Store.IsPage.more (h : s.IsPage bucket after pre n (contents, true)) (hn : 1 ≤ n) :
    ∃ m ∈ contents.getLast?, (∀ r ∈ contents, r.1 ≤ m.1) ∧
      ∀ r, s.ToList bucket after pre r → r.1 ≤ m.1 → r ∈ contents := by
  obtain ⟨rows, hrows, hmem, heq⟩ := h
  obtain ⟨rfl, hlen⟩ := Prod.mk.inj heq
  have hlt : n < rows.length := of_decide_eq_true hlen.symm
  have hlast : (rows.take n).getLast? = some rows[n - 1] := by
    rw [List.getLast?_take, if_neg (by omega), List.getElem?_eq_getElem (by omega), Option.some_or]
  refine ⟨rows[n - 1], hlast, fun r hr => ?_, fun r hr hle => ?_⟩
  · obtain ⟨i, hi, rfl⟩ := List.mem_take_iff_getElem.1 hr
    rcases Nat.lt_or_ge i (n - 1) with hlt | hge
    · exact (List.pairwise_iff_getElem.1 hrows i (n - 1) (by omega) (by omega) hlt).le
    · obtain rfl : i = n - 1 := by omega
      exact le_rfl
  · obtain ⟨i, hi, rfl⟩ := List.mem_iff_getElem.1 ((hmem r).2 hr)
    refine List.mem_take_iff_getElem.2 ⟨i, ?_, rfl⟩
    by_contra hge
    exact hle.not_gt (List.pairwise_iff_getElem.1 hrows (n - 1) i (by omega) hi (by omega))

end Page

/-- The objects that a GET finds are the rows of the bucket. -/
theorem isSome_getObject_iff {s : Store} {bucket key : Str} :
    (s.getObject bucket key).isSome = true ↔ ∃ r ∈ s.bucketRows bucket, r.1 = key := by
  rw [Option.isSome_iff_exists]
  constructor
  · rintro ⟨⟨blocks, rest⟩, h⟩
    exact ⟨(key, rest), Store.mem_bucketRows_iff_getObject.2 ⟨blocks, h⟩, rfl⟩
  · rintro ⟨r, hr, rfl⟩
    obtain ⟨blocks, h⟩ := Store.mem_bucketRows_iff_getObject.1 hr
    exact ⟨_, h⟩

namespace Walk

variable {B : Blake3} {bucket : Str} {pre : Option Str} {maxKeys : ℕ} {w : Walk}

/-- What holds of a client on its way: the marker starts with the prefix and is past every
key returned, what was returned ascends, starts with the prefix and was live, and of the
keys up to the marker none is missing that every page found live. -/
structure Going (bucket : Str) (pre : Option Str) (w : Walk) : Prop where
  marker : ∀ a ∈ w.startAfter, pre.getD [] <+: a
  ascending : w.keys.Pairwise (· < ·)
  behind : w.finished = false → ∀ k ∈ w.keys, ∃ a ∈ w.startAfter, k ≤ a
  shown : ∀ e ∈ w.pages, ∀ r ∈ e.2.contents,
    pre.getD [] <+: r.1 ∧ (e.1.getObject bucket r.1).isSome = true
  missed : ∀ key, pre.getD [] <+: key → w.LiveThroughout bucket key →
    (w.finished = true ∨ ∃ a ∈ w.startAfter, key ≤ a) → key ∈ w.keys

/-- Before the first page nothing is settled. -/
theorem going_start (bucket : Str) (pre : Option Str) (s : Store) :
    (start s).Going bucket pre where
  marker := by simp [start]
  ascending := List.Pairwise.nil
  behind := by simp [start, keys]
  shown := by simp [start]
  missed := by simp [start]

/-- A write to the store changes nothing of what the client has. -/
theorem Going.write (h : w.Going bucket pre) (s : Store) :
    Going bucket pre { w with store := s } :=
  ⟨h.marker, h.ascending, h.behind, h.shown, h.missed⟩

/-- The keys after one more page. -/
theorem keys_append (w : Walk) (page : ListPage) (after : Option Str) (finished : Bool) :
    keys { w with startAfter := after, pages := w.pages ++ [(w.store, page)],
                  finished := finished } = w.keys ++ page.contents.map Prod.fst := by
  simp [keys]

/-- The keys of the next page come after those returned. -/
theorem Going.ascending_append (h : w.Going bucket pre) (hgoing : w.finished = false)
    {contents : List ListedRow} (hsorted : SortedBy Prod.fst contents)
    (hlisted : ∀ r ∈ contents, w.store.ToList bucket w.startAfter pre r) :
    (w.keys ++ contents.map Prod.fst).Pairwise (· < ·) := by
  refine List.pairwise_append.2 ⟨h.ascending, List.pairwise_map.2 hsorted, fun k hk k' hk' => ?_⟩
  obtain ⟨a, ha, hle⟩ := h.behind hgoing k hk
  obtain ⟨r, hr, rfl⟩ := List.mem_map.1 hk'
  exact hle.trans_lt ((hlisted r hr).2.2 a ha)

/-- The keys of the next page are live when it is read. -/
theorem Going.shown_append (h : w.Going bucket pre) {page : ListPage}
    (hlisted : ∀ r ∈ page.contents, w.store.ToList bucket w.startAfter pre r) :
    ∀ e ∈ w.pages ++ [(w.store, page)], ∀ r ∈ e.2.contents,
      pre.getD [] <+: r.1 ∧ (e.1.getObject bucket r.1).isSome = true := by
  intro e he r hr
  rcases List.mem_append.1 he with he | he
  · exact h.shown e he r hr
  · obtain rfl := List.mem_singleton.1 he
    exact ⟨(hlisted r hr).2.1, isSome_getObject_iff.2 ⟨r, (hlisted r hr).1, rfl⟩⟩

/-- A key that was live all along is on a page before the next one, or is to be listed on
it. -/
theorem Going.missed_append (h : w.Going bucket pre) {page : ListPage} {key : Str}
    (hkey : pre.getD [] <+: key)
    (hlive : ∀ e ∈ w.pages ++ [(w.store, page)], (e.1.getObject bucket key).isSome = true)
    (hthis : ∀ r, w.store.ToList bucket w.startAfter pre r → r.1 = key → r ∈ page.contents) :
    key ∈ w.keys ++ page.contents.map Prod.fst := by
  rw [List.forall_mem_append, List.forall_mem_singleton] at hlive
  by_cases hpast : ∃ a ∈ w.startAfter, key ≤ a
  · exact List.mem_append_left _ (h.missed key hkey hlive.1 (.inr hpast))
  · obtain ⟨r, hr, rfl⟩ := isSome_getObject_iff.1 hlive.2
    have hlisted : w.store.ToList bucket w.startAfter pre r :=
      ⟨hr, hkey, fun a ha => not_le.1 fun hle => hpast ⟨a, ha, hle⟩⟩
    exact List.mem_append_right _ (List.mem_map.2 ⟨r, hthis r hlisted rfl, rfl⟩)

/-- **One page more.**  Past the keys returned come those of the page, and up to its marker
no key is missing. -/
theorem Going.nextPage (h : w.Going bucket pre) (hmax : 1 ≤ maxKeys) (hgoing : w.finished = false)
    {page : ListPage} (hpage : listPage w.store bucket w.startAfter pre none maxKeys = some page) :
    Going bucket pre { w with startAfter := page.nextMarker,
                              pages := w.pages ++ [(w.store, page)],
                              finished := !page.isTruncated } := by
  obtain ⟨hisPage, hmarker⟩ := isPage_of_isPrefix h.marker hpage
  obtain ⟨hsorted, hlisted⟩ := hisPage.listed
  have hascending := h.ascending_append hgoing hsorted hlisted
  have hshown := h.shown_append hlisted
  cases htrunc : page.isTruncated with
  | false =>
    rw [htrunc] at hisPage hmarker
    refine ⟨?_, ?_, fun hf => ?_, hshown, fun key hkey hlive _ => ?_⟩
    · simp [hmarker]
    · rwa [keys_append]
    · simp at hf
    · rw [keys_append]
      exact h.missed_append hkey hlive fun r hr _ => hisPage.last hr
  | true =>
    rw [htrunc] at hisPage hmarker
    obtain ⟨m, hm, hle, hupTo⟩ := hisPage.more hmax
    have hnext : page.nextMarker = some m.1 := by rw [hmarker, hm]; rfl
    have hmem : m ∈ page.contents := List.mem_of_getLast? hm
    refine ⟨?_, ?_, fun _ => ?_, hshown, fun key hkey hlive hreached => ?_⟩
    · rw [hnext]
      rintro a ⟨⟩
      exact (hlisted m hmem).2.1
    · rwa [keys_append]
    · rw [keys_append, hnext]
      intro k hk
      refine ⟨m.1, rfl, ?_⟩
      rcases List.mem_append.1 hk with hk | hk
      · obtain ⟨a, ha, hka⟩ := h.behind hgoing k hk
        exact hka.trans ((hlisted m hmem).2.2 a ha).le
      · obtain ⟨r, hr, rfl⟩ := List.mem_map.1 hk
        exact hle r hr
    · rw [keys_append]
      refine h.missed_append hkey hlive fun r hr hrkey => hupTo r hr ?_
      rcases hreached with hf | ⟨a, ha, hka⟩
      · simp at hf
      · rw [hnext] at ha
        obtain rfl := Option.some.inj ha
        exact hrkey ▸ hka

/-- What one event keeps. -/
theorem Going.step (h : w.Going bucket pre) (hmax : 1 ≤ maxKeys) (e : WalkEvent) :
    (w.step B bucket pre maxKeys e).Going bucket pre := by
  cases e with
  | insertObject ts b shardId key blocks size etag => exact h.write _
  | deleteObject ts b key => exact h.write _
  | nextPage =>
    rw [Walk.step]
    cases hfinished : w.finished with
    | true => simpa using h
    | false =>
      cases hpage : listPage w.store bucket w.startAfter pre none maxKeys with
      | none => simpa using h
      | some page => simpa using h.nextPage hmax hfinished hpage

/-- What every run keeps. -/
theorem going_run (hmax : 1 ≤ maxKeys) (s : Store) (events : List WalkEvent) :
    (events.foldl (Walk.step B bucket pre maxKeys) (start s)).Going bucket pre :=
  invariant_at_end (C := fun _ _ => True) (fun _ e h _ => h.step hmax e) (going_start bucket pre s)
    fun _ _ => trivial

/-- **A listing of a bucket that changes.**  Wherever a client is after any events, with a
prefix that has a range and at least one key a page: its next request returns a page, the
keys it was returned ascend strictly over all pages, each starts with the prefix and was
live when its page was read, and if the last page was not truncated, every key with the
prefix that was live throughout has been returned. -/
theorem run_lists (B : Blake3) (bucket : Str) (pre : Option Str) {maxKeys : ℕ}
    (hrange : listRange pre ≠ none) (hmax : 1 ≤ maxKeys) (s : Store) (events : List WalkEvent) :
    let w := events.foldl (Walk.step B bucket pre maxKeys) (start s)
    listPage w.store bucket w.startAfter pre none maxKeys ≠ none ∧
      w.keys.Pairwise (· < ·) ∧
      (∀ e ∈ w.pages, ∀ r ∈ e.2.contents,
        pre.getD [] <+: r.1 ∧ (e.1.getObject bucket r.1).isSome = true) ∧
      (w.finished = true → ∀ key, pre.getD [] <+: key → w.LiveThroughout bucket key →
        key ∈ w.keys) := by
  intro w
  have hgoing : w.Going bucket pre := going_run hmax s events
  refine ⟨?_, hgoing.ascending, hgoing.shown, fun hfinished key hkey hlive =>
    hgoing.missed key hkey hlive (.inl hfinished)⟩
  rwa [listPage, Store.listObjects_eq, ne_eq, Option.map_eq_none_iff, Option.map_eq_none_iff]

/-- A client that lists `a`, `b` and `c` by ones, while `a`, at which it stopped, is deleted and
`b` is replaced by `bb`. -/
def changing : List WalkEvent :=
  [.nextPage, .deleteObject 2 (text "b") (text "a"),
    .insertObject 2 (text "b") 0 (text "bb") [] 0 [],
    .deleteObject 2 (text "b") (text "b"), .nextPage, .nextPage]

/-- `run_lists` on that client: it gets `a`, `bb` and `c`. -/
theorem run_lists_changing : listRange (some (text "")) ≠ none ∧ 1 ≤ 1 ∧
    text "c" ∈ (changing.foldl (Walk.step Blake3.sample (text "b") (some (text "")) 1)
      (start (bucketOf [text "a", text "b", text "c"]))).keys := by
  have hrange : listRange (some (text "")) ≠ none := by decide +kernel
  refine ⟨hrange, le_rfl, ?_⟩
  refine (run_lists Blake3.sample (text "b") (some (text "")) hrange le_rfl _ changing).2.2.2 ?_
    (text "c") ?_ ?_
  · decide +kernel
  · exact List.nil_prefix
  · unfold LiveThroughout
    decide +kernel

end Walk
end Shardscape
