/-
# The key of an upload

`src/storage.rs`: `upload_part`, `upload_part_copy`, `list_parts`,
`complete_multipart_upload`, `abort_multipart_upload`.

Each of the five is authorized for the key in the request and finds its upload by id.
`complete_multipart_upload` compares that key with the key of the upload; its test calls a
mismatch a bypass.  The other four look the key up and drop it, so that a user who may write
one key can add parts to an upload of another (`part_under_other_key`).

The requests are bound to their key where the keys agree anyway, and where no part is left
behind by an upload that is gone (`multipart_bound_iff`).
-/

import Shardscape.Backend.Steady
import Shardscape.Uploads.Completion

namespace Shardscape

open Lib Lib.Prog

/-- The tables of objects, uploads and parts read the same. -/
structure Store.SameUploads (s s' : Store) : Prop where
  objects : ∀ k, s'.objects.lookup k = s.objects.lookup k
  uploads : ∀ k, s'.multipartUploads.lookup k = s.multipartUploads.lookup k
  parts : ∀ k, s'.parts.lookup k = s.parts.lookup k

/-- The same tables. -/
theorem Store.SameUploads.refl (s : Store) : s.SameUploads s :=
  ⟨fun _ => rfl, fun _ => rfl, fun _ => rfl⟩

/-- A steady site keeps its uploads and objects. -/
theorem Steady.sameUploads {Blob : BlobStore} {s s' : Site Blob} (h : Steady s s') :
    s.store.SameUploads s'.store := by
  refine ⟨fun _ => ?_, fun _ => ?_, fun _ => ?_⟩
  · rw [h.objects]
  · rw [h.uploads]
  · rw [h.parts]

/-- The five requests on an upload, each with the rest of its input. -/
inductive UploadAct where
  | uploadPart (partNumber : ℤ) (body : Option (List (Except Str Bytes)))
  | uploadPartCopy (partNumber : ℤ) (source : CopySource) (range : Option Str)
  | listParts (partNumberMarker : Option Str) (maxParts : Option ℤ)
  | completeMultipartUpload
  | abortMultipartUpload

/-- A request on an upload. -/
structure UploadRequest where
  bucket : Str
  key : Str
  uploadId : Option Uuid
  act : UploadAct

namespace UploadRequest

/-- The request. -/
def request (r : UploadRequest) : S3Request :=
  match r.act with
  | .uploadPart number body => .uploadPart r.bucket r.key r.uploadId number body
  | .uploadPartCopy number source range =>
    .uploadPartCopy r.bucket r.key r.uploadId number source range
  | .listParts marker maxParts => .listParts r.bucket r.key r.uploadId marker maxParts
  | .completeMultipartUpload => .completeMultipartUpload r.bucket r.key r.uploadId
  | .abortMultipartUpload => .abortMultipartUpload r.bucket r.key r.uploadId

/-- The upload of the request is there, and it is for `storedKey`. -/
def Names (r : UploadRequest) (s : Store) (storedKey : Str) : Prop :=
  ∃ id, r.uploadId = some id ∧ s.getMultipartKey r.bucket id = some storedKey

/-- **Bound to the key**, of the stores before and after a request and its result: if it
succeeds and there is such an upload, the upload is for the key of the request; otherwise
objects, uploads and parts stay as they are. -/
structure Bound (r : UploadRequest) (s s' : Store) (out : Except S3Error S3Response) : Prop where
  key : (∃ a, out = .ok a) → ∀ storedKey, r.Names s storedKey → storedKey = r.key
  unchanged : ¬ ((∃ a, out = .ok a) ∧ ∃ storedKey, r.Names s storedKey) → s.SameUploads s'

end UploadRequest

/-- The rest of the input is in order, and the key of the upload is not compared: the body
arrives, or the source and the range of a copy can be read. -/
def UploadAct.Unchecked (s : Store) : UploadAct → Prop
  | .uploadPart _ body =>
    ∃ frames data, body = some frames ∧ ChunkingStrategy.bodyOf frames = .ok data
  | .uploadPartCopy _ source range => ∃ bucket key blocks size etag positions,
      source = .bucket bucket key ∧ s.getObject bucket key = some (blocks, size, etag) ∧
        copyRange size range = .ok positions
  | .listParts _ _ => True
  | .completeMultipartUpload => False
  | .abortMultipartUpload => True

/-- The sites that hold these users, objects, uploads and parts; blocks, blobs and the world may
be any. -/
structure Store.SameRequests (st s : Store) : Prop where
  users : s.users = st.users
  objects : s.objects = st.objects
  uploads : s.multipartUploads = st.multipartUploads
  parts : s.parts = st.parts

/-- Nothing outside the tables of requests is in the way: the disk is free, puts succeed, and no
block has bytes to read. -/
structure Site.Easy {Blob : BlobStore} (s : Site Blob) : Prop extends s.Permits where
  blocks : s.store.blocks = ∅

/-! ### The requests that drop the key -/

/-- What such a request does: it succeeds only on an upload that is there and on input that is in
order, and always does on an easy site; when it fails it changes no table of requests. -/
structure UploadRequest.Answered {Blob : BlobStore} (r : UploadRequest) (s : Site Blob)
    (out : Except S3Error S3Response) (s' : Site Blob) : Prop where
  named : (∃ a, out = .ok a) → (∃ storedKey, r.Names s.store storedKey) ∧ r.act.Unchecked s.store
  failed : (∀ a, out ≠ .ok a) → s.store.SameUploads s'.store
  succeeds : s.Easy → (∃ storedKey, r.Names s.store storedKey) → r.act.Unchecked s.store →
    ∃ a, out = .ok a

namespace UploadRequest

variable {Blob : BlobStore} {s s' : Site Blob} {r : UploadRequest}

/-- A request that fails for a reason. -/
theorem answered_error (e : S3Error) (hsame : s.store.SameUploads s'.store)
    (hwhy : ¬ (s.Easy ∧ (∃ storedKey, r.Names s.store storedKey) ∧ r.act.Unchecked s.store)) :
    r.Answered s (.error e) s' where
  named := by
    rintro ⟨a, ⟨⟩⟩
  failed _ := hsame
  succeeds heasy hnamed hunchecked := absurd ⟨heasy, hnamed, hunchecked⟩ hwhy

/-- A response, where the key is not checked. -/
theorem answered_ok (a : S3Response) (hnamed : ∃ storedKey, r.Names s.store storedKey)
    (hunchecked : r.act.Unchecked s.store) : r.Answered s (.ok a) s' where
  named _ := ⟨hnamed, hunchecked⟩
  failed h := absurd rfl (h a)
  succeeds _ _ _ := ⟨a, rfl⟩

/-- If the upload of such a request is for its key, the request is bound to it. -/
theorem Answered.bound {out : Except S3Error S3Response} (h : r.Answered s out s')
    (hkey : ∀ storedKey, r.Names s.store storedKey → r.act.Unchecked s.store → storedKey = r.key) :
    r.Bound s.store s'.store out where
  key hok storedKey hnames := hkey storedKey hnames (h.named hok).2
  unchanged hnot := h.failed fun a ha => hnot ⟨⟨a, ha⟩, (h.named ⟨a, ha⟩).1⟩

end UploadRequest

open UploadRequest StorageBackend

variable {Blob : BlobStore} {S : StorageBackend} {s : Site Blob}

/-- `upload_part`. -/
theorem answered_uploadPart (S : StorageBackend) (s : Site Blob) (bucket key : Str)
    (uploadId : Option Uuid) (number : ℤ) (body : Option (List (Except Str Bytes))) :
    wp (S.run (.uploadPart bucket key uploadId number body))
      (Answered ⟨bucket, key, uploadId, .uploadPart number body⟩ s) s := by
  refine wp_bind.2 (wp_checkWritable_bind ?_ fun hguard e => ?_)
  · refine wp_named_bind (fun id storedKey hid hstored => ?_) fun hnot e => ?_
    · cases body with
      | none =>
        refine answered_error _ (Store.SameUploads.refl _) ?_
        rintro ⟨-, -, frames, data, ⟨⟩, -⟩
      | some frames =>
        refine wp_bind.2 (wp_mono
          (wp_and (succeeds_receiveBody frames) (wp_receiveBody_ok frames)) fun out s₁ hout => ?_)
        obtain ⟨⟨hsteady, hok⟩, harrived⟩ := hout
        cases out with
        | error e =>
          refine answered_error _ hsteady.sameUploads ?_
          rintro ⟨heasy, -, frames', data, ⟨⟩, hdata⟩
          obtain ⟨u, ⟨⟩⟩ := hok ⟨heasy.putFails, data, hdata⟩
        | ok u =>
          obtain ⟨data, hdata⟩ := harrived ⟨u, rfl⟩
          exact answered_ok _ ⟨storedKey, id, hid, hstored⟩ ⟨frames, data, rfl, hdata⟩
    · exact answered_error e (Store.SameUploads.refl _) fun h => hnot h.2.1
  · exact answered_error e (Store.SameUploads.refl _) fun h => hguard h.1.toPermits

/-- Blocks without bytes have no slices. -/
theorem sliceFrom_eq_nil (start stop : ℕ) :
    ∀ (sizes : List ℤ) (i offset : ℕ), (∀ z ∈ sizes, z = 0) →
      sliceFrom start stop i offset sizes = []
  | [], _, _, _ => rfl
  | z :: sizes, i, offset, h => by
    obtain ⟨hz, hsizes⟩ := List.forall_mem_cons.1 h
    rw [sliceFrom, hz]
    exact (if_pos (Or.inl rfl)).trans (sliceFrom_eq_nil start stop sizes _ _ hsizes)

/-- Without bytes there is nothing to slice. -/
theorem copySlices_of_easy (heasy : s.Easy) (blocks : List Bytes) (start stop : ℕ) :
    copySlices (s.store.blockSizes blocks) start stop = [] := by
  have hzero : ∀ z ∈ s.store.blockSizes blocks, z = 0 := by
    intro z hz
    obtain ⟨h, -, rfl⟩ := List.mem_map.1 hz
    rw [heasy.blocks]
    rfl
  rw [copySlices, sliceBlocksForRange, sliceFrom_eq_nil start stop _ 0 0 hzero]
  rfl

/-- `upload_part_copy`. -/
theorem answered_uploadPartCopy (S : StorageBackend) (s : Site Blob) (bucket key : Str)
    (uploadId : Option Uuid) (number : ℤ) (source : CopySource) (range : Option Str) :
    wp (S.run (.uploadPartCopy bucket key uploadId number source range))
      (Answered ⟨bucket, key, uploadId, .uploadPartCopy number source range⟩ s) s := by
  refine wp_bind.2 (wp_mono (wp_uploadPartCopy S s bucket uploadId number source range) ?_)
  rintro r s' (⟨⟨out, rfl⟩, blocks, size, start, stop, hinputs⟩ | ⟨⟨e, rfl⟩, hsteady, hwhy⟩)
  · obtain ⟨srcBucket, srcKey, etag, hsource, hget⟩ := hinputs.source
    exact answered_ok _ hinputs.upload ⟨_, _, _, _, _, _, hsource, hget, hinputs.range⟩
  · refine answered_error e hsteady.sameUploads ?_
    rintro ⟨heasy, hnamed, srcBucket, srcKey, blocks, size, etag,
      ⟨start, stop⟩, hsource, hget, hrange⟩
    refine hwhy ⟨heasy.toPermits, blocks, size, start, stop,
      ⟨hnamed, ⟨srcBucket, srcKey, etag, hsource, hget⟩, hrange⟩, fun p hp => ?_⟩
    rw [copySlices_of_easy heasy] at hp
    exact absurd hp List.not_mem_nil

/-- The parts of a page are stamped without fail. -/
theorem wp_stampParts {ε : Type} (parts : List (ℤ × List Bytes × ℤ × Str)) (s : Site Blob) :
    wp (stampParts parts : Site.SProg Blob ε _)
      (fun out s' => s'.store = s.store ∧ ∃ a, out = .ok a)
      s := by
  induction parts generalizing s with
  | nil => exact ⟨rfl, _, rfl⟩
  | cons p parts ih =>
    refine wp_bind.2 ((Site.wp_ask _ _).2 (wp_bind.2 (wp_mono (ih _) ?_)))
    rintro out s' ⟨hs', rest, rfl⟩
    exact ⟨hs', _, rfl⟩

/-- `list_parts`. -/
theorem answered_listParts (S : StorageBackend) (s : Site Blob) (bucket key : Str)
    (uploadId : Option Uuid) (marker : Option Str) (maxParts : Option ℤ) :
    wp (S.run (.listParts bucket key uploadId marker maxParts))
      (Answered ⟨bucket, key, uploadId, .listParts marker maxParts⟩ s) s := by
  refine wp_bind.2 (wp_named_bind (fun id storedKey hid hstored => ?_) fun hnot e => ?_)
  · refine wp_bind.2 ((Site.wp_db _ _).2 (wp_bind.2 (wp_mono (wp_stampParts _ s) ?_)))
    rintro out s' ⟨-, rows, rfl⟩
    exact answered_ok _ ⟨storedKey, id, hid, hstored⟩ trivial
  · exact answered_error e (Store.SameUploads.refl _) fun h => hnot h.2.1

/-! ### The other two -/

/-- `complete_multipart_upload` is bound to its key. -/
theorem bound_complete (S : StorageBackend) (s : Site Blob) (bucket key : Str)
    (uploadId : Option Uuid) :
    wp (S.run (.completeMultipartUpload bucket key uploadId)) (fun out s' =>
      Bound ⟨bucket, key, uploadId, .completeMultipartUpload⟩ s.store s'.store out) s := by
  refine wp_mono (wp_run_complete S s ⟨bucket, key, uploadId, []⟩) fun out s' hrun => ?_
  rcases hrun with ⟨id, etag, hid, hkey, -, hout, -⟩ | ⟨-, ⟨e, rfl⟩, hs'⟩
  · refine ⟨fun _ storedKey hnames => ?_, fun hnot => absurd ⟨hout, key, id, hid, hkey⟩ hnot⟩
    obtain ⟨id', hid', hstored⟩ := hnames
    cases hid.symm.trans hid'
    exact Option.some.inj (hstored.symm.trans hkey)
  · refine ⟨?_, fun _ => ?_⟩
    · rintro ⟨a, ⟨⟩⟩
    · rw [hs']
      exact Store.SameUploads.refl _

/-- **The keys agree**: the upload of a request that does not compare them is for the key of the
request, and an upload that is aborted and not there has left no parts behind. -/
structure UploadRequest.KeyAgrees (r : UploadRequest) (s : Store) : Prop where
  key : ∀ storedKey, r.Names s storedKey → r.act.Unchecked s → storedKey = r.key
  parts : r.act = .abortMultipartUpload → ∀ id, r.uploadId = some id →
    s.getMultipartKey r.bucket id = none → ∀ n, s.parts.lookup (r.bucket, id, n) = none

/-- Deleting an upload that is not there deletes the parts it has left behind. -/
theorem sameUploads_deleteMultipartUpload_iff {s : Store} {bucket : Str} {id : Uuid}
    (hnone : s.getMultipartKey bucket id = none) :
    s.SameUploads (s.deleteMultipartUpload bucket id) ↔
      ∀ n, s.parts.lookup (bucket, id, n) = none := by
  have hparts : ∀ k, (s.deleteMultipartUpload bucket id).parts.lookup k =
      if decide (k.1 = bucket ∧ k.2.1 = id) then none else s.parts.lookup k :=
    Table.lookup_deleteWhere _ _
  constructor
  · intro hsame n
    rw [← hsame.parts (bucket, id, n), hparts, if_pos (decide_eq_true ⟨rfl, rfl⟩)]
  · intro hempty
    refine ⟨fun _ => rfl, fun k => ?_, fun k => ?_⟩
    · show (s.multipartUploads.erase (bucket, id)).lookup k = _
      rw [Table.lookup_erase]
      split_ifs with hk
      · rw [hk]
        exact hnone.symm
      · rfl
    · obtain ⟨bucket', id', n⟩ := k
      rw [hparts]
      split_ifs with hk
      · obtain ⟨rfl, rfl⟩ := of_decide_eq_true hk
        exact (hempty n).symm
      · rfl

/-- `abort_multipart_upload` deletes the upload it finds by id. -/
theorem bound_abort_iff (S : StorageBackend) (s : Site Blob) (bucket key : Str)
    (uploadId : Option Uuid) :
    wp (S.run (.abortMultipartUpload bucket key uploadId)) (fun out s' =>
        Bound ⟨bucket, key, uploadId, .abortMultipartUpload⟩ s.store s'.store out) s ↔
      KeyAgrees ⟨bucket, key, uploadId, .abortMultipartUpload⟩ s.store := by
  cases uploadId with
  | none =>
    constructor
    · rintro -
      refine ⟨?_, ?_⟩
      · rintro storedKey ⟨id, ⟨⟩, -⟩
      · rintro - id ⟨⟩
    · rintro -
      refine ⟨?_, fun _ => Store.SameUploads.refl _⟩
      rintro ⟨a, ⟨⟩⟩
  | some id =>
    show Bound _ s.store (s.store.deleteMultipartUpload bucket id) (.ok .empty) ↔ _
    constructor
    · rintro ⟨hkey, hunchanged⟩
      refine ⟨fun storedKey hnames _ => hkey ⟨_, rfl⟩ storedKey hnames, ?_⟩
      rintro - id' hid hnone
      cases hid
      refine (sameUploads_deleteMultipartUpload_iff hnone).1 (hunchanged ?_)
      rintro ⟨-, storedKey, id', hid, hstored⟩
      cases hid
      cases hnone.symm.trans hstored
    · rintro ⟨hkey, hparts⟩
      refine ⟨fun _ storedKey hnames => hkey storedKey hnames trivial, fun hnot => ?_⟩
      have hnone : s.store.getMultipartKey bucket id = none :=
        Option.eq_none_iff_forall_ne_some.2 fun storedKey hstored =>
          hnot ⟨⟨_, rfl⟩, storedKey, id, rfl, hstored⟩
      exact (sameUploads_deleteMultipartUpload_iff hnone).2 (hparts rfl id rfl hnone)

/-! ### All five -/

/-- **What the requests that drop the key do.** -/
theorem answered_run (S : StorageBackend) (s : Site Blob) (r : UploadRequest)
    (hcomplete : r.act ≠ .completeMultipartUpload) (habort : r.act ≠ .abortMultipartUpload) :
    wp (S.run r.request) (r.Answered s) s := by
  obtain ⟨bucket, key, uploadId, act⟩ := r
  cases act with
  | uploadPart number body => exact answered_uploadPart S s bucket key uploadId number body
  | uploadPartCopy number source range =>
    exact answered_uploadPartCopy S s bucket key uploadId number source range
  | listParts marker maxParts => exact answered_listParts S s bucket key uploadId marker maxParts
  | completeMultipartUpload => exact absurd rfl hcomplete
  | abortMultipartUpload => exact absurd rfl habort

/-- Where the keys agree, a request that is allowed is bound to its key. -/
theorem bound_of_keyAgrees (S : StorageBackend) (s : Site Blob) (r : UploadRequest)
    (h : r.KeyAgrees s.store) :
    wp (S.run r.request) (fun out s' => r.Bound s.store s'.store out) s := by
  by_cases hcomplete : r.act = .completeMultipartUpload
  · obtain ⟨bucket, key, uploadId, act⟩ := r
    cases hcomplete
    exact bound_complete S s bucket key uploadId
  · by_cases habort : r.act = .abortMultipartUpload
    · obtain ⟨bucket, key, uploadId, act⟩ := r
      cases habort
      exact (bound_abort_iff S s bucket key uploadId).2 h
    · exact wp_mono (answered_run S s r hcomplete habort) fun out s' hrun => hrun.bound h.key

/-- And on an easy site only there. -/
theorem keyAgrees_of_bound (S : StorageBackend) {s : Site Blob} (heasy : s.Easy)
    {r : UploadRequest} (h : wp (S.run r.request) (fun out s' => r.Bound s.store s'.store out) s) :
    r.KeyAgrees s.store := by
  by_cases hcomplete : r.act = .completeMultipartUpload
  · refine ⟨fun storedKey _ hunchecked => ?_, fun habort => ?_⟩
    · rw [hcomplete] at hunchecked
      exact hunchecked.elim
    · cases hcomplete.symm.trans habort
  · by_cases habort : r.act = .abortMultipartUpload
    · obtain ⟨bucket, key, uploadId, act⟩ := r
      cases habort
      exact (bound_abort_iff S s bucket key uploadId).1 h
    · refine ⟨fun storedKey hnames hunchecked => ?_, fun h => absurd h habort⟩
      have hrun : r.Answered s _ _ := answered_run S s r hcomplete habort
      exact h.key (hrun.succeeds heasy ⟨storedKey, hnames⟩ hunchecked) storedKey hnames

namespace Store.SameRequests

variable {st t : Store}

/-- The key of an upload is the same. -/
theorem getMultipartKey (h : st.SameRequests t) (bucket : Str) (id : Uuid) :
    t.getMultipartKey bucket id = st.getMultipartKey bucket id := by
  rw [Store.getMultipartKey, h.uploads, Store.getMultipartKey]

/-- The permissions are the same. -/
theorem allowed_iff (h : st.SameRequests t) {J : PolicyJson} {credentials : Option Str}
    {r : S3Request} : r.Allowed J credentials t ↔ r.Allowed J credentials st := by
  simp only [S3Request.Allowed, Store.getUser, h.users]

/-- The keys agree or not as before. -/
theorem keyAgrees_iff (h : st.SameRequests t) {r : UploadRequest} :
    r.KeyAgrees t ↔ r.KeyAgrees st := by
  have hnames : ∀ storedKey, r.Names t storedKey ↔ r.Names st storedKey := by
    intro storedKey
    simp only [UploadRequest.Names, h.getMultipartKey]
  have hunchecked : r.act.Unchecked t ↔ r.act.Unchecked st := by
    cases r.act <;> simp only [UploadAct.Unchecked, Store.getObject, h.objects]
  constructor
  · rintro ⟨hkey, hparts⟩
    simp only [hnames, hunchecked, h.getMultipartKey, h.parts] at hkey hparts
    exact ⟨hkey, hparts⟩
  · rintro ⟨hkey, hparts⟩
    simp only [← hnames, ← hunchecked, ← h.getMultipartKey, ← h.parts] at hkey hparts
    exact ⟨hkey, hparts⟩

end Store.SameRequests

/-- A site with these users, objects, uploads and parts where nothing is in the way. -/
def easySite (st : Store) : Site localBlob := { freshSite with store := { st with blocks := ∅ } }

/-- Nothing fails at the easy site. -/
theorem easy_easySite (st : Store) : (easySite st).Easy := ⟨⟨fun _ => rfl, fun _ => rfl⟩, rfl⟩

/-- It is asked the same. -/
theorem sameRequests_easySite (st : Store) : st.SameRequests (easySite st).store :=
  ⟨rfl, rfl, rfl, rfl⟩

/-- **When the requests on an upload are bound to the key they are authorized for.**  At every
site with these users, objects, uploads and parts they are iff the keys agree, or the request is
not allowed. -/
theorem multipart_bound_iff (S : StorageBackend) (J : PolicyJson) (credentials : Option Str)
    (st : Store) (r : UploadRequest) :
    (∀ (Blob : BlobStore) (s : Site Blob), st.SameRequests s.store →
      r.Bound s.store ((S.handle J credentials r.request).exec s).1.store
        ((S.handle J credentials r.request).exec s).2) ↔
      (r.request.Allowed J credentials st → r.KeyAgrees st) := by
  constructor
  · intro h hallowed
    have hst := sameRequests_easySite st
    have hbound := h localBlob (easySite st) hst
    rw [exec_handle_of_allowed (hst.allowed_iff.2 hallowed)] at hbound
    exact hst.keyAgrees_iff.1 (keyAgrees_of_bound S (easy_easySite st) hbound)
  · intro h Blob s hst
    change wp (S.handle J credentials r.request) (fun out s' => r.Bound s.store s'.store out) s
    refine wp_handle (fun hallowed => ?_) fun _ e => ?_
    · exact bound_of_keyAgrees S s r (hst.keyAgrees_iff.2 (h (hst.allowed_iff.1 hallowed)))
    · refine ⟨?_, fun _ => Store.SameUploads.refl _⟩
      rintro ⟨a, ⟨⟩⟩

/-! ### A part under another key -/

/-- A policy for one key. -/
def onlyMine : Policy := ⟨[⟨text "Allow", [text "*"], [text "arn:ss:bucket:::b/mine"]⟩]⟩

/-- A site at which an upload of another key is in progress. -/
def otherUpload : Site localBlob :=
  { freshSite with store := freshSite.store.insertMultipart (text "b") 7 (text "secret") }

/-- A part for that upload, in a request for the key of the policy. -/
def foreignPart : UploadRequest :=
  ⟨text "b", text "mine", some 7, .uploadPart 1 (some [.ok [97]])⟩

/-- The site and the response after it. -/
def afterForeignPart : Site localBlob × Except S3Error S3Response :=
  (StorageBackend.sample.handle (PolicyJson.withShort onlyMine) (some (text "u"))
    foreignPart.request).exec (otherUpload.withUser onlyMine)

/-- **A part is added to an upload of a key the user may not write.**  The request succeeds, the
part is stored, and the request is not bound to its key. -/
theorem part_under_other_key :
    onlyMine.isAllowed (text "s3:PutObject")
        (resourceOf (some (text "b")) (some (text "secret"))) = false ∧
      (afterForeignPart.1.store.listParts (text "b") 7).map (fun p => (p.1, p.2.2.1)) = [(1, 1)] ∧
      ¬ foreignPart.Bound (otherUpload.withUser onlyMine).store afterForeignPart.1.store
        afterForeignPart.2 := by
  refine ⟨by decide +kernel, by decide +kernel, fun h => ?_⟩
  have hkey := h.key ⟨_, rfl⟩ (text "secret") ⟨7, rfl, rfl⟩
  exact absurd hkey (by decide +kernel)

end Shardscape
