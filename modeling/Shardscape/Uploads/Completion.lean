/-
# What a completed upload is made of

`src/storage.rs`: `complete_multipart_upload`.

The client lists the parts its object is to be made of, by number and etag, and the
request does not read that list.  It puts together whatever parts the upload has, in the
order of their numbers, and stores the result (`exec_handle_complete`).  So a listed part that was
never uploaded is not missed, one uploaded and not listed is in the object
(`completion_adds_unlisted`), and the list is honoured exactly where it makes no difference
(`completion_asListed_iff`).
-/

import Shardscape.Backend.Receive
import Shardscape.Backend.Samples
import Mathlib.Algebra.BigOperators.Group.List.Basic
import Mathlib.Data.List.Flatten

namespace Shardscape

open Lib Lib.Prog

variable {Blob : BlobStore}

/-! ### Parts of a list -/

/-- What is put together of some entries is all of it iff the others add nothing. -/
theorem flatMap_filter_eq_iff {α β : Type*} (q : α → Bool) (f : α → List β) (l : List α) :
    l.flatMap f = (l.filter q).flatMap f ↔ ∀ a ∈ l, q a = false → f a = [] := by
  induction l with
  | nil => exact ⟨fun _ _ ha => absurd ha List.not_mem_nil, fun _ => rfl⟩
  | cons a l ih =>
    rw [List.forall_mem_cons, ← ih, List.flatMap_cons]
    cases hq : q a with
    | true =>
      rw [List.filter_cons_of_pos hq, List.flatMap_cons, List.append_cancel_left_eq]
      exact ⟨fun h => ⟨fun hfalse => (Bool.noConfusion hfalse), h⟩, fun h => h.2⟩
    | false =>
      rw [List.filter_cons_of_neg (by rw [hq]; exact Bool.false_ne_true)]
      constructor
      · -- what is left out cannot be made up for by the rest
        intro h
        have hsub : ((l.filter q).flatMap f).Sublist (l.flatMap f) :=
          List.filter_sublist.flatMap f
        have hlen := congrArg List.length h
        rw [List.length_append] at hlen
        have hle := hsub.length_le
        have hnil : f a = [] := List.length_eq_zero_iff.1 (by omega)
        rw [hnil, List.nil_append] at h
        exact ⟨fun _ => hnil, h⟩
      · rintro ⟨ha, h⟩
        rw [ha rfl, List.nil_append, h]

/-- A sum, split by a test. -/
theorem sum_filter_add_sum_filter_not {α : Type*} (q : α → Bool) (f : α → ℤ) (l : List α) :
    ((l.filter q).map f).sum + ((l.filter fun a => !q a).map f).sum = (l.map f).sum := by
  induction l with
  | nil => rfl
  | cons a l ih =>
    cases hq : q a <;> simp only [List.filter_cons, hq, Bool.not_true, Bool.not_false,
      Bool.false_eq_true, if_true, if_false, List.map_cons, List.sum_cons] <;> omega

/-! ### The request -/

/-- The parts of an upload are listed in the order of their numbers. -/
theorem Store.sortBy_listParts (s : Store) (bucket : Str) (id : Uuid) :
    sortBy Prod.fst (s.listParts bucket id) = s.listParts bucket id := by
  have hnodup := s.nodup_numbers_listParts bucket id
  refine eq_of_mem_iff (sortedBy_sortBy hnodup) (sortedBy_sortBy ?_) fun p => mem_sortBy
  exact ((List.perm_insertionSort _ _).map Prod.fst).nodup_iff.1 hnodup

namespace StorageBackend

/-- The parts can be gathered iff their etags are hexadecimal. -/
theorem exists_gatherParts_iff (l : List (ℤ × List Bytes × ℤ × Str)) :
    (∃ r, gatherParts l = .ok r) ↔ ∀ p ∈ l, (hexDecode (trimQuotes p.2.2.2)).isSome := by
  induction l with
  | nil => exact ⟨fun _ _ hp => absurd hp List.not_mem_nil, fun _ => ⟨_, rfl⟩⟩
  | cons p l ih =>
    obtain ⟨n, blocks, size, etag⟩ := p
    rw [List.forall_mem_cons, ← ih, gatherParts]
    cases hexDecode (trimQuotes etag) with
    | none =>
      constructor
      · rintro ⟨_, h⟩
        cases h
      · rintro ⟨h, -⟩
        cases h
    | some etagBytes =>
      cases gatherParts l with
      | error e =>
        constructor
        · rintro ⟨_, h⟩
          cases h
        · rintro ⟨-, _, h⟩
          cases h
      | ok r => exact ⟨fun _ => ⟨rfl, _, rfl⟩, fun _ => ⟨_, rfl⟩⟩

end StorageBackend

/-- The input of `complete_multipart_upload`; the parts are listed by number and etag. -/
structure CompleteInput where
  bucket : Str
  key : Str
  uploadId : Option Uuid
  listed : List (ℤ × Str)

namespace CompleteInput

/-- The request; nothing reads the list. -/
def request (r : CompleteInput) : S3Request := .completeMultipartUpload r.bucket r.key r.uploadId

/-- The number of a part is listed. -/
def lists (r : CompleteInput) (p : ℤ × List Bytes × ℤ × Str) : Bool :=
  r.listed.any fun e => decide (e.1 = p.1)

/-- The stored parts of an upload that are listed, in the order of their numbers. -/
def listedParts (r : CompleteInput) (s : Store) (id : Uuid) : List (ℤ × List Bytes × ℤ × Str) :=
  (s.listParts r.bucket id).filter r.lists

/-- Every listed part is stored, with the etag it is listed with. -/
def Matches (r : CompleteInput) (s : Store) (id : Uuid) : Prop :=
  ∀ e ∈ r.listed, ∃ p ∈ s.listParts r.bucket id, p.1 = e.1 ∧ trimQuotes p.2.2.2 = trimQuotes e.2

/-- The object is made of the listed parts. -/
def MadeOfListed (r : CompleteInput) (s s' : Store) (id : Uuid) : Prop :=
  ∃ etag, s'.getObject r.bucket r.key =
    some ((r.listedParts s id).flatMap fun p => p.2.1,
      ((r.listedParts s id).map fun p => p.2.2.1).sum,
      etag)

/-- What the client asks for, of the stores before and after the request and its result. -/
def AsListed (r : CompleteInput) (s s' : Store) : Except S3Error S3Response → Prop
  | .ok _ => ∃ id, r.uploadId = some id ∧ r.Matches s id ∧ r.MadeOfListed s s' id
  | .error _ => s'.objects.lookup (r.bucket, r.key) = s.objects.lookup (r.bucket, r.key) ∧
      ∀ id, s'.getMultipartKey r.bucket id = s.getMultipartKey r.bucket id ∧
        s'.listParts r.bucket id = s.listParts r.bucket id

/-- The policy of the user allows the request. -/
def Allowed (J : PolicyJson) (credentials : Option Str) (s : Store) (r : CompleteInput) : Prop :=
  ∃ accessKey secret policy, credentials = some accessKey ∧
    s.getUser J accessKey = .ok (some (secret, policy)) ∧
    policy.isAllowed (text "s3:PutObject") (resourceOf (some r.bucket) (some r.key)) = true

/-- The request is carried out: it is allowed, there is such an upload of the key, and the
etags of its parts are hexadecimal. -/
structure Accepted (J : PolicyJson) (credentials : Option Str) (s : Store) (r : CompleteInput)
    (id : Uuid) : Prop where
  allowed : r.Allowed J credentials s
  uploadId : r.uploadId = some id
  upload : s.getMultipartKey r.bucket id = some r.key
  etags : ∀ p ∈ s.listParts r.bucket id, (hexDecode (trimQuotes p.2.2.2)).isSome

/-- The store after a request that is carried out, with the time and the etag of the object. -/
def completed (B : Blake3) (r : CompleteInput) (s : Store) (id : Uuid) (ts : ℤ) (etag : Str) :
    Store :=
  (s.insertObject ts r.bucket (computeShardId B r.key) r.key
    ((s.listParts r.bucket id).flatMap fun p => p.2.1)
    ((s.listParts r.bucket id).map fun p => p.2.2.1).sum etag).deleteMultipartUpload r.bucket id

end CompleteInput

open CompleteInput StorageBackend

variable {S : StorageBackend} {J : PolicyJson} {credentials : Option Str} {s : Site Blob}
  {r : CompleteInput}

/-- What is carried out, once the request is allowed. -/
theorem wp_run_complete (S : StorageBackend) (s : Site Blob) (r : CompleteInput) :
    wp (S.run r.request) (fun out s' =>
      (∃ id etag, r.uploadId = some id ∧ s.store.getMultipartKey r.bucket id = some r.key ∧
        (∀ p ∈ s.store.listParts r.bucket id, (hexDecode (trimQuotes p.2.2.2)).isSome) ∧
        (∃ response, out = .ok response) ∧
          s'.store = r.completed S.blake3 s.store id s.stamp etag) ∨
      (¬ ∃ id, r.uploadId = some id ∧ s.store.getMultipartKey r.bucket id = some r.key ∧
        ∀ p ∈ s.store.listParts r.bucket id, (hexDecode (trimQuotes p.2.2.2)).isSome) ∧
        (∃ e, out = .error e) ∧ s'.store = s.store) s := by
  obtain ⟨bucket, key, uploadId, listed⟩ := r
  refine wp_bind.2 (wp_named_bind (fun id storedKey hid hstored => ?_) fun hnot e => ?_)
  · cases hid
    dsimp only
    split_ifs with hkey
    · refine .inr ⟨?_, ⟨_, rfl⟩, rfl⟩
      rintro ⟨id', hid, hkey', -⟩
      cases hid
      exact hkey (Option.some.inj (hstored.symm.trans hkey'))
    · obtain rfl := not_not.1 hkey
      refine wp_bind.2 ((Site.wp_db _ _).2 (wp_bind.2 ((wp_ofExcept _).2 ?_)))
      rw [Store.sortBy_listParts]
      have hetags := exists_gatherParts_iff (s.store.listParts bucket id)
      cases hgather : gatherParts (s.store.listParts bucket id) with
      | error e =>
        refine .inr ⟨?_, ⟨_, rfl⟩, rfl⟩
        rintro ⟨id', hid, -, hall⟩
        cases hid
        obtain ⟨r, hr⟩ := hetags.2 hall
        cases hgather.symm.trans hr
      | ok gathered =>
        obtain ⟨blocks, size, etags⟩ := gathered
        obtain ⟨rfl, rfl⟩ := gatherParts_ok hgather
        exact .inl ⟨id, _, rfl, hstored, hetags.1 ⟨_, hgather⟩, ⟨_, rfl⟩, rfl⟩
  · refine .inr ⟨?_, ⟨_, rfl⟩, rfl⟩
    rintro ⟨id, hid, hstored, -⟩
    exact hnot ⟨key, id, hid, hstored⟩

/-- **What the request does.**  If it is accepted, it stores all parts of the upload as one
object and deletes the upload; if not, it fails and changes nothing. -/
theorem exec_handle_complete (S : StorageBackend) (J : PolicyJson) (credentials : Option Str)
    (s : Site Blob) (r : CompleteInput) :
    (∃ id etag, r.Accepted J credentials s.store id ∧
        (∃ response, ((S.handle J credentials r.request).exec s).2 = .ok response) ∧
        ((S.handle J credentials r.request).exec s).1.store =
          r.completed S.blake3 s.store id s.stamp etag) ∨
      (¬ ∃ id, r.Accepted J credentials s.store id) ∧
        (∃ e, ((S.handle J credentials r.request).exec s).2 = .error e) ∧
        ((S.handle J credentials r.request).exec s).1.store = s.store := by
  change wp (S.handle J credentials r.request) (fun out s' =>
    (∃ id etag, r.Accepted J credentials s.store id ∧ (∃ response, out = .ok response) ∧
        s'.store = r.completed S.blake3 s.store id s.stamp etag) ∨
      (¬ ∃ id, r.Accepted J credentials s.store id) ∧ (∃ e, out = .error e) ∧
        s'.store = s.store) s
  refine wp_handle (fun hallowed => ?_) fun hdenied e => ?_
  · refine wp_mono (wp_run_complete S s r) fun out s' hrun => ?_
    rcases hrun with ⟨id, etag, hid, hkey, hetags, hout, hs'⟩ | ⟨hnot, hout, hs'⟩
    · exact .inl ⟨id, etag, ⟨hallowed, hid, hkey, hetags⟩, hout, hs'⟩
    · exact .inr ⟨fun ⟨id, h⟩ => hnot ⟨id, h.uploadId, h.upload, h.etags⟩, hout, hs'⟩
  · exact .inr ⟨fun ⟨_, h⟩ => hdenied h.allowed, ⟨e, rfl⟩, rfl⟩

/-! ### Where the list makes no difference -/

namespace CompleteInput

/-- The object has no row that is as new as `ts`. -/
def Newest (r : CompleteInput) (s : Store) (ts : ℤ) : Prop :=
  ∀ row ∈ s.objects.lookup (r.bucket, r.key), row.updatedAt < ts

/-- The parts that are not listed have no blocks, and their sizes sum up to nothing. -/
def UnlistedEmpty (r : CompleteInput) (s : Store) (id : Uuid) : Prop :=
  (∀ p ∈ s.listParts r.bucket id, r.lists p = false → p.2.1 = []) ∧
    (((s.listParts r.bucket id).filter fun p => !r.lists p).map fun p => p.2.2.1).sum = 0

/-- The object of an accepted request reads as all parts, unless a newer row is there. -/
theorem getObject_completed (B : Blake3) (r : CompleteInput) (s : Store) (id : Uuid) (ts : ℤ)
    (etag : Str) :
    (r.Newest s ts → (r.completed B s id ts etag).getObject r.bucket r.key =
      some ((s.listParts r.bucket id).flatMap fun p => p.2.1,
        ((s.listParts r.bucket id).map fun p => p.2.2.1).sum, etag)) ∧
    (¬ r.Newest s ts →
      (r.completed B s id ts etag).getObject r.bucket r.key = s.getObject r.bucket r.key) := by
  let new := Store.objectRow
    (Store.encodeBlocks ((s.listParts r.bucket id).flatMap fun p => p.2.1))
    ((s.listParts r.bucket id).map fun p => p.2.2.1).sum etag (computeShardId B r.key) false ts
  have hget : (r.completed B s id ts etag).getObject r.bucket r.key =
      (Lww.merge ObjectRow.updatedAt (s.objects.lookup (r.bucket, r.key)) new).bind Store.readRow :=
    congrArg (Option.bind · Store.readRow)
      ((Store.lookup_putObjectRow s r.bucket r.key _ _).trans (if_pos rfl))
  have hlen : ∀ b ∈ (s.listParts r.bucket id).flatMap fun p => p.2.1, b.length = 32 := by
    intro b hb
    obtain ⟨p, hp, hb⟩ := List.mem_flatMap.1 hb
    obtain ⟨row, -, hp⟩ := Store.mem_listParts.1 hp
    rw [hp] at hb
    exact Store.length_of_mem_decodeBlocks hb
  rw [hget]
  rcases Lww.merge_cases ObjectRow.updatedAt (s.objects.lookup (r.bucket, r.key)) new with
    ⟨hmerge, hnewest⟩ | ⟨row, hrow, hle, hmerge⟩
  · refine ⟨fun _ => ?_, fun hnot => absurd hnewest hnot⟩
    rw [hmerge, Option.bind_some, Store.readRow_live hlen]
  · refine ⟨fun hnewest => absurd (hnewest row hrow) hle.not_gt, fun _ => ?_⟩
    rw [hmerge, Store.getObject]

/-- All parts are the listed ones iff those that are not listed add nothing. -/
theorem unlistedEmpty_iff (r : CompleteInput) (s : Store) (id : Uuid) :
    r.UnlistedEmpty s id ↔
      ((s.listParts r.bucket id).flatMap fun p => p.2.1) =
          ((r.listedParts s id).flatMap fun p => p.2.1) ∧
        ((s.listParts r.bucket id).map fun p => p.2.2.1).sum =
          ((r.listedParts s id).map fun p => p.2.2.1).sum := by
  have hsum := sum_filter_add_sum_filter_not r.lists (fun p => p.2.2.1) (s.listParts r.bucket id)
  rw [listedParts, flatMap_filter_eq_iff, UnlistedEmpty]
  refine and_congr_right fun _ => ?_
  constructor <;> intro h <;> omega

end CompleteInput

/-- **When a completed upload is what the client listed.**  A request that is accepted has to
list parts that are stored, under their etags; and either its object is the newest and the
parts not listed add nothing, or the newer object that stays is made of the listed parts, too. -/
theorem completion_asListed_iff (S : StorageBackend) (J : PolicyJson) (credentials : Option Str)
    (s : Site Blob) (r : CompleteInput) :
    r.AsListed s.store ((S.handle J credentials r.request).exec s).1.store
        ((S.handle J credentials r.request).exec s).2 ↔
      ∀ id, r.Accepted J credentials s.store id → r.Matches s.store id ∧
        (r.Newest s.store s.stamp → r.UnlistedEmpty s.store id) ∧
        (¬ r.Newest s.store s.stamp → r.MadeOfListed s.store s.store id) := by
  rcases exec_handle_complete S J credentials s r with
    ⟨id, etag, haccepted, ⟨response, hout⟩, hs'⟩ | ⟨hnot, ⟨e, hout⟩, hs'⟩
  · have hid : ∀ id', r.uploadId = some id' → id' = id := fun id' h =>
      Option.some.inj (h.symm.trans haccepted.uploadId)
    obtain ⟨hnew, hold⟩ := r.getObject_completed S.blake3 s.store id s.stamp etag
    -- the parts that are not listed add nothing, or the row was not replaced
    have hmade : r.MadeOfListed s.store (r.completed S.blake3 s.store id s.stamp etag) id ↔
        (r.Newest s.store s.stamp → r.UnlistedEmpty s.store id) ∧
          (¬ r.Newest s.store s.stamp → r.MadeOfListed s.store s.store id) := by
      by_cases hnewest : r.Newest s.store s.stamp
      · rw [MadeOfListed, hnew hnewest, unlistedEmpty_iff]
        constructor
        · rintro ⟨etag', h⟩
          obtain ⟨hblocks, hrest⟩ := Prod.mk.inj (Option.some.inj h)
          exact ⟨fun _ => ⟨hblocks, (Prod.mk.inj hrest).1⟩, fun h => absurd hnewest h⟩
        · rintro ⟨h, -⟩
          rw [(h hnewest).1, (h hnewest).2]
          exact ⟨etag, rfl⟩
      · rw [MadeOfListed, hold hnewest]
        exact ⟨fun h => ⟨fun h' => absurd h' hnewest, fun _ => h⟩, fun h => h.2 hnewest⟩
    rw [hout, hs', AsListed]
    constructor
    · rintro ⟨id', hid', hmatches, hlisted⟩ id'' haccepted'
      obtain rfl := hid id' hid'
      obtain rfl := hid id'' haccepted'.uploadId
      exact ⟨hmatches, hmade.1 hlisted⟩
    · intro h
      obtain ⟨hmatches, hrest⟩ := h id haccepted
      exact ⟨id, haccepted.uploadId, hmatches, hmade.2 hrest⟩
  · rw [hout, hs', AsListed]
    exact ⟨fun _ id haccepted => absurd ⟨id, haccepted⟩ hnot, fun _ => ⟨rfl, fun _ => ⟨rfl, rfl⟩⟩⟩

/-! ### A list that is not honoured -/

/-- A site at which two parts of one byte each have been uploaded. -/
def twoParts : Site localBlob :=
  [.createMultipartUpload (text "b") (text "k") 7,
    .uploadPart (text "b") (text "k") (some 7) 1 (some [.ok [97]]),
    .uploadPart (text "b") (text "k") (some 7) 2 (some [.ok [98]])].foldl
    (fun s request => ((StorageBackend.byUser allowAll request).exec s).1)
    (freshSite.withUser allowAll)

/-- The first of them, listed with its etag. -/
def firstOnly : CompleteInput :=
  ⟨text "b", text "k", some 7,
    ((twoParts.store.listParts (text "b") 7).take 1).map fun p => (p.1, p.2.2.2)⟩

/-- The site and the response after its request. -/
def afterFirstOnly : Site localBlob × Except S3Error S3Response :=
  (StorageBackend.sample.handle (PolicyJson.withShort allowAll) (some (text "u"))
    firstOnly.request).exec twoParts

/-- **A part that was not listed.**  Two parts are uploaded and the first is listed; the
request succeeds and the object has the bytes of both. -/
theorem completion_adds_unlisted :
    (∃ response, afterFirstOnly.2 = .ok response) ∧
      (afterFirstOnly.1.store.getObject (text "b") (text "k")).map (fun o => (o.1.length, o.2.1)) =
        some (2, 2) ∧
      ¬ firstOnly.AsListed twoParts.store afterFirstOnly.1.store afterFirstOnly.2 := by
  have hok : ∃ response, afterFirstOnly.2 = .ok response := ⟨_, rfl⟩
  have htwo : (afterFirstOnly.1.store.getObject (text "b") (text "k")).map
      (fun o => (o.1.length, o.2.1)) = some (2, 2) := by decide +kernel
  refine ⟨hok, htwo, fun h => ?_⟩
  obtain ⟨response, hresponse⟩ := hok
  rw [hresponse] at h
  obtain ⟨id, hid, -, etag, hobject⟩ := h
  obtain rfl : (7 : Uuid) = id := Option.some.inj hid
  have hone : ((firstOnly.listedParts twoParts.store 7).map fun p => p.2.2.1).sum = 1 := by
    decide +kernel
  have hsize := congrArg (Option.map fun o => (o.1.length, o.2.1)) hobject
  rw [hone] at hsize
  have heq : (1 : ℤ) = 2 := congrArg Prod.snd (Option.some.inj (hsize.symm.trans htwo))
  exact absurd heq (by decide)

end Shardscape
