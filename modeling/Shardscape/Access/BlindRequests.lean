/-
# Requests that cannot see the bytes of an object

Every request of `src/storage.rs` that does not read the row of `x` is blind to the bytes
of `x`.  A HEAD of `x` and the listings do read it, but only into their responses:
what they do to the site is the same (`parallel_run`).

What is left is a GET of `x`, which `authorize` refuses, and a copy from `x`, which it
does not: `copy_object` and `upload_part_copy` are authorized for their destination.
-/

import Shardscape.Access.Pages

namespace Shardscape

open Lib Prog

/-- The object a request copies from. -/
def S3Request.copySource : S3Request → Option (Str × Str)
  | .copyObject (.bucket bucket key) _ _ => some (bucket, key)
  | .uploadPartCopy _ _ _ _ (.bucket bucket key) _ => some (bucket, key)
  | _ => none

namespace StorageBackend

open Site

variable {Blob : BlobStore} {S : StorageBackend} {x : Str × Str}

/-! ### Writes -/

/-- The guard looks at the disk only. -/
theorem blind_checkWritable :
    (checkWritable : SProg Blob S3Error Unit).Blind (AlikeBut x) := by
  refine Blind.bind (p := diskGuard) (blind_ask fun _ _ _ => rfl) fun trip => ?_
  cases trip with
  | some trip => exact blind_fail _
  | none => exact blind_pure _

/-- A chunk is stored by its hash. -/
theorem blind_storeChunk (u : Upload) (data : Bytes) :
    (S.storeChunk u data : SProg Blob S3Error Upload).Blind (AlikeBut x) :=
  ((blind_storeBlock _ _ _).mapErr _).bind fun _ => blind_pure _

/-- A frame goes into chunks. -/
theorem blind_receiveFrame (u : Upload) (res : Except Str Bytes) :
    (S.receiveFrame u res : SProg Blob S3Error Upload).Blind (AlikeBut x) :=
  (blind_ofExcept _).bind fun _ => blind_foldlM blind_storeChunk _ _

/-- The end of a body is stored without regard to the rows. -/
theorem blind_finishBody (u : Upload) :
    (S.finishBody u : SProg Blob S3Error Upload).Blind (AlikeBut x) := by
  unfold finishBody
  cases ChunkingStrategy.finalize u.currentChunk with
  | none => exact blind_pure _
  | some data => exact blind_storeChunk _ data

/-- A whole body is stored without regard to the rows. -/
theorem blind_receiveBody (body : List (Except Str Bytes)) :
    (S.receiveBody body : SProg Blob S3Error Upload).Blind (AlikeBut x) :=
  (blind_foldlM blind_receiveFrame body {}).bind blind_finishBody

/-- A PUT looks at no object row. -/
theorem blind_putObject (bucket key : Str) (body : Option (List (Except Str Bytes))) :
    (S.putObject bucket key body : SProg Blob S3Error Str).Blind (AlikeBut x) := by
  refine blind_checkWritable.bind fun _ => ?_
  cases body with
  | none => exact blind_fail _
  | some body =>
    exact (blind_receiveBody body).bind fun _ =>
      (blind_insertObject _ _ _ _ _ _).bind fun _ => blind_pure _

/-- A copy looks at its source, which is another object. -/
theorem blind_copyObject {source : CopySource} {bucket key : Str}
    (hsource : ∀ b k, source = .bucket b k → (b, k) ≠ x) :
    (S.copyObject source bucket key : SProg Blob S3Error (Str × ℕ)).Blind (AlikeBut x) := by
  cases source with
  | accessPoint => exact blind_fail _
  | bucket b k =>
    refine (blind_getObject (hsource b k rfl)).bind fun row => ?_
    cases row with
    | none => exact blind_fail _
    | some row =>
      exact (blind_insertObject _ _ _ _ _ _).bind fun _ =>
        blind_systemTime.bind fun _ => blind_pure _

/-! ### Uploads in parts -/

/-- The id of an upload is read off the request. -/
theorem blind_parsedUpload (uploadId : Option Uuid) :
    (parsedUpload uploadId : SProg Blob S3Error Uuid).Blind (AlikeBut x) := by
  cases uploadId with
  | none => exact blind_fail _
  | some id => exact blind_pure _

/-- The key of an upload is in the table of uploads. -/
theorem blind_uploadKey (bucket : Str) (id : Uuid) :
    (uploadKey bucket id : SProg Blob S3Error Str).Blind (AlikeBut x) := by
  refine Blind.bind (p := Site.getMultipartKey bucket id)
    (blind_reads fun _ _ _ => rfl) fun key => ?_
  cases key with
  | none => exact blind_fail _
  | some key => exact blind_pure _

/-- A new upload is a row of that table. -/
theorem blind_createMultipartUpload (bucket key : Str) (id : Uuid) :
    (createMultipartUpload bucket key id : SProg Blob S3Error _).Blind (AlikeBut x) :=
  Blind.bind (p := Site.insertMultipart bucket id key)
    (blind_writes (fun _ => rfl) fun _ _ _ => ⟨_, rfl⟩) fun _ => blind_pure _

/-- A part looks at its upload. -/
theorem blind_uploadPart (bucket : Str) (uploadId : Option Uuid) (number : ℤ)
    (body : Option (List (Except Str Bytes))) :
    (S.uploadPart bucket uploadId number body : SProg Blob S3Error Str).Blind (AlikeBut x) := by
  refine blind_checkWritable.bind fun _ => (blind_parsedUpload uploadId).bind fun id => ?_
  refine (blind_uploadKey bucket id).bind fun _ => ?_
  cases body with
  | none => exact blind_fail _
  | some body =>
    exact (blind_receiveBody body).bind fun _ =>
      (blind_insertPart _ _ _ _ _ _).bind fun _ => blind_pure _

/-- A copied part also looks at its source, which is another object. -/
theorem blind_uploadPartCopy {source : CopySource} (bucket : Str) (uploadId : Option Uuid)
    (number : ℤ) (range : Option Str) (hsource : ∀ b k, source = .bucket b k → (b, k) ≠ x) :
    (S.uploadPartCopy bucket uploadId number source range :
      SProg Blob S3Error (Str × ℕ)).Blind (AlikeBut x) := by
  refine blind_checkWritable.bind fun _ => (blind_parsedUpload uploadId).bind fun id => ?_
  refine (blind_uploadKey bucket id).bind fun _ => ?_
  cases source with
  | accessPoint => exact blind_fail _
  | bucket b k =>
    refine (blind_getObject (hsource b k rfl)).bind fun row => ?_
    cases row with
    | none => exact blind_fail _
    | some row =>
      refine (blind_ofExcept _).bind fun _ => ?_
      refine Blind.bind (p := Site.blockSizes row.1) (blind_reads fun _ _ _ => rfl) fun _ => ?_
      refine (blind_foldlM (fun u slice => ?_) _ _).bind fun u => ?_
      · exact ((blind_getBlock _).mapErr _).bind fun _ => blind_receiveFrame u _
      · exact (blind_finishBody u).bind fun _ => (blind_insertPart _ _ _ _ _ _).bind fun _ =>
          blind_systemTime.bind fun _ => blind_pure _

/-- To complete an upload looks at its parts, and writes an object unseen. -/
theorem blind_completeMultipartUpload (bucket key : Str) (uploadId : Option Uuid) :
    (S.completeMultipartUpload bucket key uploadId :
      SProg Blob S3Error (Str × Str × Str)).Blind (AlikeBut x) := by
  refine (blind_parsedUpload uploadId).bind fun id => (blind_uploadKey bucket id).bind fun _ => ?_
  split
  · exact blind_fail _
  · refine Blind.bind (p := Site.listParts bucket id) (blind_reads fun _ _ _ => rfl) fun _ => ?_
    exact (blind_ofExcept _).bind fun _ => (blind_insertObject _ _ _ _ _ _).bind fun _ =>
      (blind_deleteMultipartUpload bucket id).bind fun _ => blind_pure _

/-- To abort one drops it. -/
theorem blind_abortMultipartUpload (bucket : Str) (uploadId : Option Uuid) :
    (abortMultipartUpload bucket uploadId : SProg Blob S3Error Unit).Blind (AlikeBut x) :=
  (blind_parsedUpload uploadId).bind fun id => blind_deleteMultipartUpload bucket id

/-- Each listed part gets a time. -/
theorem blind_stampParts (parts : List (ℤ × List Bytes × ℤ × Str)) :
    (stampParts parts : SProg Blob S3Error _).Blind (AlikeBut x) := by
  induction parts with
  | nil => exact blind_pure _
  | cons part parts ih => exact blind_systemTime.bind fun _ => ih.bind fun _ => blind_pure _

/-- The parts are in their own table. -/
theorem blind_listParts (bucket key : Str) (uploadId : Option Uuid) (marker : Option Str)
    (maxParts : Option ℤ) :
    (listParts bucket key uploadId marker maxParts : SProg Blob S3Error _).Blind (AlikeBut x) := by
  refine (blind_parsedUpload uploadId).bind fun id => (blind_uploadKey bucket id).bind fun _ => ?_
  refine Blind.bind (p := Site.listParts bucket id) (blind_reads fun _ _ _ => rfl) fun parts => ?_
  exact (blind_stampParts _).bind fun _ => blind_pure _

/-- Each listed upload gets a time. -/
theorem blind_stampUploads (uploads : List (Str × Uuid)) :
    (stampUploads uploads : SProg Blob S3Error _).Blind (AlikeBut x) := by
  induction uploads with
  | nil => exact blind_pure _
  | cons upload uploads ih => exact blind_systemTime.bind fun _ => ih.bind fun _ => blind_pure _

/-- The uploads are in their own table. -/
theorem blind_listMultipartUploads (bucket : Str) (pre keyMarker delimiter : Option Str)
    (maxUploads : Option ℤ) :
    (listMultipartUploads bucket pre keyMarker delimiter maxUploads :
      SProg Blob S3Error _).Blind (AlikeBut x) :=
  Blind.bind (p := Site.listMultipartUploads bucket pre keyMarker _)
    (blind_reads fun _ _ _ => rfl) fun _ => (blind_stampUploads _).bind fun _ => blind_pure _

/-! ### Reads -/

/-- The sizes of blocks say nothing of objects. -/
theorem blind_readPlan (blocks : List Bytes) (size : ℤ) (range : Option Range) :
    (readPlan blocks size range : SProg Blob S3Error _).Blind (AlikeBut x) := by
  cases range with
  | none => exact blind_pure _
  | some range =>
    rw [readPlan]
    cases resolveRange range (asU64 size) with
    | none => exact blind_fail _
    | some p =>
      exact Blind.bind (p := Site.blockSizes blocks) (blind_reads fun _ _ _ => rfl)
        fun _ => blind_pure _

/-- Blocks are read by their hashes. -/
theorem blind_streamRest (plan : List (Bytes × ℕ × Option ℕ)) :
    (streamRest plan : SProg Blob S3Error _).Blind (AlikeBut x) := by
  induction plan with
  | nil => exact blind_pure _
  | cons p plan ih =>
    refine (blind_getBlock p.1).attempt.bind fun r => ?_
    cases r with
    | ok data => exact ih.bind fun _ => blind_pure _
    | error e => exact blind_pure _

/-- The first block is read by its hash. -/
theorem blind_firstFrame (plan : List (Bytes × ℕ × Option ℕ)) :
    (firstFrame plan : SProg Blob S3Error _).Blind (AlikeBut x) := by
  cases plan with
  | nil => exact blind_pure _
  | cons p plan => exact ((blind_getBlock p.1).mapErr _).bind fun _ => blind_pure _

/-- A GET of another object. -/
theorem blind_getObject {bucket key : Str} (hne : (bucket, key) ≠ x) (range : Option Range) :
    (getObject bucket key range : SProg Blob S3Error GetObjectOutput).Blind (AlikeBut x) := by
  refine (Site.blind_getObject hne).bind fun row => ?_
  cases row with
  | none => exact blind_fail _
  | some row =>
    exact (blind_readPlan _ _ range).bind fun plan => (blind_firstFrame plan.1).bind fun _ =>
      blind_systemTime.bind fun _ => (blind_streamRest _).bind fun _ => blind_pure _

/-! ### What reads the row of the object -/

/-- A HEAD reads the clock if the object is there. -/
theorem parallel_headObject (bucket key : Str) :
    (headObject bucket key : SProg Blob S3Error HeadObjectOutput).Parallel (AlikeBut x) := by
  intro s t h
  have hsome := h.store.isSome_getObject bucket key
  have hexec : ∀ s : Site Blob, ((headObject bucket key : SProg Blob S3Error _).exec s).1 =
      { s with tick := s.tick + if (s.store.getObject bucket key).isSome then 1 else 0 } := by
    intro s
    have hget : (Site.getObject bucket key : SProg Blob S3Error _).exec s =
        (s, .ok (s.store.getObject bucket key)) := rfl
    rw [headObject, exec_bind, hget]
    cases s.store.getObject bucket key with
    | none => rfl
    | some row => rfl
  rw [hexec, hexec, ← hsome]
  exact ⟨by conv_lhs => rw [h.rest], h.store⟩

/-- A clock read for every row. -/
theorem exec_stampRows (rows : List ListedRow) (s : Site Blob) :
    ((stampRows rows : SProg Blob S3Error _).exec s).1 =
      { s with tick := s.tick + rows.length } := by
  have hwp : Prog.wp (stampRows rows : SProg Blob S3Error _)
      (fun r s' => s' = { s with tick := s.tick + rows.length } ∧ ∃ out, r = .ok out) s := by
    induction rows generalizing s with
    | nil => exact ⟨rfl, _, rfl⟩
    | cons row rows ih =>
      rw [stampRows, systemTime]
      refine wp_bind.2 ((wp_ask _ _).2 ?_)
      refine wp_bind.2 (wp_mono (ih { s with tick := s.tick + 1 }) ?_)
      rintro r s' ⟨rfl, out, rfl⟩
      have hticks : s.tick + 1 + rows.length = s.tick + (row :: rows).length := by
        rw [List.length_cons]
        omega
      exact ⟨congrArg (fun n => { s with tick := n }) hticks, _, rfl⟩
  exact hwp.1

/-- A listing reads the clock once for every row it shows. -/
theorem parallel_stampedPage (input : ListInput) :
    (stampedPage input : SProg Blob S3Error _).Parallel (AlikeBut x) := by
  intro s t h
  have hpages := h.store.veiled_listPage input.bucket input.marker input.pre input.delimiter
    (pageLimit input.maxKeys)
  have hexec : ∀ s : Site Blob, ((stampedPage input : SProg Blob S3Error _).exec s).1 =
      { s with tick := s.tick + (((Shardscape.listPage s.store input.bucket input.marker input.pre
        input.delimiter (pageLimit input.maxKeys)).map
          fun page => page.contents.map ListedRow.veiled).map List.length).getD 0 } := by
    intro s
    have hlist := exec_listPage (ε := S3Error) input.bucket input.marker input.pre input.delimiter
      (pageLimit input.maxKeys) s
    rw [stampedPage, exec_bind, hlist]
    cases Shardscape.listPage s.store input.bucket input.marker input.pre input.delimiter
      (pageLimit input.maxKeys) with
    | none => rfl
    | some page =>
      refine (exec_andThen (fun _ => ⟨_, rfl⟩) s).trans ?_
      rw [exec_stampRows]
      simp
  rw [hexec, hexec, hpages]
  exact ⟨by conv_lhs => rw [h.rest], h.store⟩

/-! ### Every request -/

/-- Requests that read no bytes of `x`, or read them only into a response that is not
that of a GET. -/
theorem parallel_run {r : S3Request} (hsource : r.copySource ≠ some x)
    (hget : ∀ range, r ≠ .getObject x.1 x.2 range) :
    (S.run r : SProg Blob S3Error S3Response).Parallel (AlikeBut x) := by
  cases r with
  | putObject bucket key body => exact ((blind_putObject bucket key body).map _).parallel
  | getObject bucket key range =>
    refine ((blind_getObject ?_ range).map _).parallel
    rintro rfl
    exact hget range rfl
  | headObject bucket key => exact (parallel_headObject bucket key).andThen fun _ => ⟨_, rfl⟩
  | deleteObject bucket key => exact ((blind_deleteObject _ bucket key).map _).parallel
  | deleteObjects bucket keys =>
    refine (Blind.map (Blind.bind ?_ fun _ => blind_pure _) _).parallel
    exact blind_forEach (fun key => blind_deleteObject _ bucket key) keys
  | copyObject source bucket key =>
    refine ((blind_copyObject fun b k hs hx => hsource ?_).map _).parallel
    rw [hs, ← hx]
    rfl
  | createMultipartUpload bucket key uploadId =>
    exact ((blind_createMultipartUpload bucket key uploadId).map _).parallel
  | uploadPart bucket key uploadId partNumber body =>
    exact ((blind_uploadPart bucket uploadId partNumber body).map _).parallel
  | uploadPartCopy bucket key uploadId partNumber source range =>
    refine ((blind_uploadPartCopy bucket uploadId partNumber range
      fun b k hs hx => hsource ?_).map _).parallel
    rw [hs, ← hx]
    rfl
  | completeMultipartUpload bucket key uploadId =>
    exact ((blind_completeMultipartUpload bucket key uploadId).map _).parallel
  | abortMultipartUpload bucket key uploadId =>
    exact ((blind_abortMultipartUpload bucket uploadId).map _).parallel
  | listParts bucket key uploadId marker maxParts =>
    exact ((blind_listParts bucket key uploadId marker maxParts).map _).parallel
  | listMultipartUploads bucket pre keyMarker delimiter maxUploads =>
    exact ((blind_listMultipartUploads bucket pre keyMarker delimiter maxUploads).map _).parallel
  | listObjects input =>
    refine (parallel_stampedPage input).andThen fun page => ?_
    cases page <;> exact ⟨_, rfl⟩
  | listObjectsV2 input =>
    refine (parallel_stampedPage input).andThen fun page => ?_
    cases page <;> exact ⟨_, rfl⟩
  | listObjectVersions input =>
    refine (parallel_stampedPage input).andThen fun page => ?_
    cases page <;> exact ⟨_, rfl⟩
  | listBuckets => exact fun _ _ h => h
  | createBucket bucket => exact fun _ _ h => h
  | deleteBucket bucket => exact fun _ _ h => h
  | headBucket bucket => exact fun _ _ h => h

end StorageBackend
end Shardscape
