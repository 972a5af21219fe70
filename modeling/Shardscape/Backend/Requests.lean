/-
# The S3 interface

`src/storage.rs`, `impl S3 for StorageBackend`: every request, behind `authorize`.
The requests on objects and parts are those of `Shardscape.Backend.Handlers` and
`Shardscape.Backend.PartCopy`; here are the listings and the requests on buckets.
`list_page` asks the store for one page of rows after the other, so it is a program
too (`listPage`); with nothing in between it is the function of
`Shardscape.Backend.ListPage` (`exec_listPage`).

A time stamp is read for every row that is returned.  `list_objects` panics on some
prefixes, and the request is then never answered (`aborted`).
-/

import Shardscape.Backend.ListPage
import Shardscape.Backend.PartCopy
import Shardscape.Backend.Policy

namespace Shardscape

open Lib

/-- `max_keys`, `max_parts`, `max_uploads`: 1000 unless given, and at least 1. -/
def pageLimit (limit : Option ℤ) : ℕ := (max (limit.getD 1000) 1).toNat

/-- The input of the three object listings; `marker` is `continuation_token` or else
`start_after`, `key_marker`, or `marker`. -/
structure ListInput where
  bucket : Str
  marker : Option Str := none
  pre : Option Str := none
  delimiter : Option Str := none
  maxKeys : Option ℤ := none

/-- `Object`, and what `ObjectVersion` says of one. -/
structure ListedObject where
  key : Str
  size : ℤ
  eTag : Str
  lastModified : ℕ

/-- `ListObjectsV2Output`. -/
structure ListObjectsV2Output where
  name : Str
  pre : Option Str
  delimiter : Option Str
  contents : List ListedObject
  commonPrefixes : Option (List Str)
  isTruncated : Bool
  keyCount : ℕ
  maxKeys : ℕ
  nextContinuationToken : Option Str

/-- `ListObjectVersionsOutput`; each version is the latest and has the id `null`. -/
structure ListObjectVersionsOutput where
  name : Str
  pre : Option Str
  delimiter : Option Str
  keyMarker : Option Str
  versions : List (ListedObject × Bool × Str)
  commonPrefixes : Option (List Str)
  isTruncated : Bool
  nextKeyMarker : Option Str
  nextVersionIdMarker : Option Str
  maxKeys : ℕ

/-- `ListObjectsOutput`. -/
structure ListObjectsOutput where
  name : Str
  pre : Option Str
  delimiter : Option Str
  marker : Option Str
  contents : List ListedObject
  commonPrefixes : Option (List Str)
  isTruncated : Bool
  maxKeys : ℕ
  nextMarker : Option Str

/-- `ListPartsOutput`. -/
structure ListPartsOutput where
  bucket : Str
  key : Str
  uploadId : Uuid
  parts : List (ℤ × ℤ × Str × ℕ)
  maxParts : ℕ
  isTruncated : Bool
  nextPartNumberMarker : Option Str
  partNumberMarker : Option Str

/-- `ListMultipartUploadsOutput`. -/
structure ListMultipartUploadsOutput where
  bucket : Str
  pre : Option Str
  keyMarker : Option Str
  maxUploads : ℕ
  isTruncated : Bool
  uploads : Option (List (Str × Uuid × ℕ))
  nextKeyMarker : Option Str
  delimiter : Option Str

/-- A request, with its input. -/
inductive S3Request where
  | putObject (bucket key : Str) (body : Option (List (Except Str Bytes)))
  | getObject (bucket key : Str) (range : Option Range)
  | headObject (bucket key : Str)
  | deleteObject (bucket key : Str)
  | deleteObjects (bucket : Str) (keys : List Str)
  | copyObject (source : CopySource) (bucket key : Str)
  | createMultipartUpload (bucket key : Str) (uploadId : Uuid)
  | uploadPart (bucket key : Str) (uploadId : Option Uuid) (partNumber : ℤ)
      (body : Option (List (Except Str Bytes)))
  | uploadPartCopy (bucket key : Str) (uploadId : Option Uuid) (partNumber : ℤ)
      (source : CopySource) (range : Option Str)
  | completeMultipartUpload (bucket key : Str) (uploadId : Option Uuid)
  | abortMultipartUpload (bucket key : Str) (uploadId : Option Uuid)
  | listParts (bucket key : Str) (uploadId : Option Uuid) (partNumberMarker : Option Str)
      (maxParts : Option ℤ)
  | listMultipartUploads (bucket : Str) (pre keyMarker delimiter : Option Str)
      (maxUploads : Option ℤ)
  | listObjects (input : ListInput)
  | listObjectsV2 (input : ListInput)
  | listObjectVersions (input : ListInput)
  | listBuckets
  | createBucket (bucket : Str)
  | deleteBucket (bucket : Str)
  | headBucket (bucket : Str)

/-- A response that is not an error. -/
inductive S3Response where
  | putObject (eTag : Str)
  | getObject (output : GetObjectOutput)
  | headObject (output : HeadObjectOutput)
  | deleteObjects (deleted : List Str)
  | copied (eTag : Str) (lastModified : ℕ)
  | createMultipartUpload (bucket key : Str) (uploadId : Uuid)
  | uploadPart (eTag : Str)
  | completeMultipartUpload (bucket key eTag : Str)
  | listParts (output : ListPartsOutput)
  | listMultipartUploads (output : ListMultipartUploadsOutput)
  | listObjects (output : ListObjectsOutput)
  | listObjectsV2 (output : ListObjectsV2Output)
  | listObjectVersions (output : ListObjectVersionsOutput)
  | listBuckets (buckets : List (Str × ℕ))
  | empty
  | aborted

/-- What a request is authorized for: action, bucket and key. -/
def S3Request.asks : S3Request → Str × Option Str × Option Str
  | .putObject bucket key _ => (text "s3:PutObject", some bucket, some key)
  | .getObject bucket key _ => (text "s3:GetObject", some bucket, some key)
  | .headObject bucket key => (text "s3:HeadObject", some bucket, some key)
  | .deleteObject bucket key => (text "s3:DeleteObject", some bucket, some key)
  | .deleteObjects bucket _ => (text "s3:DeleteObject", some bucket, none)
  | .copyObject _ bucket key => (text "s3:PutObject", some bucket, some key)
  | .createMultipartUpload bucket key _ => (text "s3:PutObject", some bucket, some key)
  | .uploadPart bucket key _ _ _ => (text "s3:PutObject", some bucket, some key)
  | .uploadPartCopy bucket key _ _ _ _ => (text "s3:PutObject", some bucket, some key)
  | .completeMultipartUpload bucket key _ => (text "s3:PutObject", some bucket, some key)
  | .abortMultipartUpload bucket key _ =>
    (text "s3:AbortMultipartUpload", some bucket, some key)
  | .listParts bucket key _ _ _ => (text "s3:ListMultipartUploadParts", some bucket, some key)
  | .listMultipartUploads bucket _ _ _ _ =>
    (text "s3:ListBucketMultipartUploads", some bucket, none)
  | .listObjects input => (text "s3:ListBucket", some input.bucket, none)
  | .listObjectsV2 input => (text "s3:ListBucket", some input.bucket, none)
  | .listObjectVersions input => (text "s3:ListBucketVersions", some input.bucket, none)
  | .listBuckets => (text "s3:ListAllMyBuckets", none, none)
  | .createBucket bucket => (text "s3:CreateBucket", some bucket, none)
  | .deleteBucket bucket => (text "s3:DeleteBucket", some bucket, none)
  | .headBucket bucket => (text "s3:ListBucket", some bucket, none)

namespace StorageBackend

variable {Blob : BlobStore} {ε : Type}

/-! ### Listings -/

/-- The loop of `list_page`; the fuel is the number of turns left. -/
def gatherRows (bucket : Str) (pre : Option Str) :
    ℕ → Option Str → List ListedRow → Site.SProg Blob ε (Option (List ListedRow))
  | 0, _, _ => pure none
  | fuel + 1, cursor, gathered => do
    match ← Site.listObjects bucket cursor pre scanPage with
    | none => pure none
    | some (page, more) =>
      let gathered := gathered ++ page
      match page.getLast? with
      | some last =>
        if more = true ∧ gathered.length < scanCap then
          gatherRows bucket pre fuel (some last.1) gathered
        else pure (some gathered)
      | none => pure (some gathered)

/-- `list_page`, call by call; `list_objects` has the same loop. -/
def listPage (bucket : Str) (startAfter pre delimiter : Option Str) (maxKeys : ℕ) :
    Site.SProg Blob ε (Option ListPage) :=
  match delimiter with
  | none => do
    let page ← Site.listObjects bucket startAfter pre maxKeys
    pure (page.map fun (rows, isTruncated) =>
      { contents := rows
        commonPrefixes := []
        isTruncated := isTruncated
        nextMarker := if isTruncated then rows.getLast?.map Prod.fst else none })
  | some delim => do
    let gathered ← gatherRows bucket pre (scanCap / scanPage) startAfter []
    pure (gathered.map fun gathered =>
      let (contents, common) := groupByDelimiter gathered (pre.getD []) delim
      mergeAndTruncate contents common maxKeys)

/-- The loop of queries, while nothing else changes the site, is `gather`. -/
theorem exec_gatherRows (bucket : Str) (pre : Option Str) (s : Site Blob) (fuel : ℕ)
    (cursor : Option Str) (gathered : List ListedRow) :
    (gatherRows bucket pre fuel cursor gathered : Site.SProg Blob ε _).exec s =
      (s, .ok (gather s.store bucket pre fuel cursor gathered)) := by
  induction fuel generalizing cursor gathered with
  | zero => rfl
  | succ fuel ih =>
    unfold gather
    show Prog.exec (match s.store.listObjects bucket cursor pre scanPage with
      | none => _
      | some (page, more) => _) s = _
    cases s.store.listObjects bucket cursor pre scanPage with
    | none => rfl
    | some r =>
      obtain ⟨page, more⟩ := r
      dsimp only
      cases page.getLast? with
      | none => rfl
      | some last =>
        dsimp only
        split
        · exact ih _ _
        · rfl

/-- **The pages of a listing that is not interrupted** are those of the function. -/
theorem exec_listPage (bucket : Str) (startAfter pre delimiter : Option Str) (maxKeys : ℕ)
    (s : Site Blob) :
    (listPage bucket startAfter pre delimiter maxKeys : Site.SProg Blob ε _).exec s =
      (s, .ok (Shardscape.listPage s.store bucket startAfter pre delimiter maxKeys)) := by
  cases delimiter with
  | none => rfl
  | some delim =>
    have h := exec_gatherRows (ε := ε) bucket pre s (scanCap / scanPage) startAfter []
    have hwp : Prog.wp (listPage bucket startAfter pre (some delim) maxKeys : Site.SProg Blob ε _)
        (fun r s' => (s', r) =
          (s, .ok (Shardscape.listPage s.store bucket startAfter pre (some delim) maxKeys)))
            s := by
      refine Prog.wp_bind.2 ?_
      unfold Prog.wp
      rw [h]
      rfl
    exact hwp

/-- The rows of a page, each with the time. -/
def stampRows : List ListedRow → Site.SProg Blob ε (List ListedObject)
  | [] => pure []
  | (key, size, etag) :: rows => do
    let lastModified ← Site.systemTime
    let rest ← stampRows rows
    pure (⟨key, size, quoted etag, lastModified⟩ :: rest)

/-- A page with its rows stamped; `none` is the panic. -/
def stampedPage (input : ListInput) :
    Site.SProg Blob ε (Option (ListPage × List ListedObject)) := do
  match ← listPage input.bucket input.marker input.pre input.delimiter
    (pageLimit input.maxKeys) with
  | none => pure none
  | some page => do
    let contents ← stampRows page.contents
    pure (some (page, contents))

/-- The common prefixes of a response, left out when there are none. -/
def nonEmpty {α : Type} (l : List α) : Option (List α) := if l.isEmpty then none else some l

/-- `list_objects_v2`. -/
def listObjectsV2 (input : ListInput) : Site.SProg Blob S3Error S3Response := do
  match ← stampedPage input with
  | none => pure .aborted
  | some (page, contents) =>
    pure (.listObjectsV2
      { name := input.bucket
        pre := input.pre
        delimiter := input.delimiter
        contents := contents
        commonPrefixes := nonEmpty page.commonPrefixes
        isTruncated := page.isTruncated
        keyCount := contents.length + page.commonPrefixes.length
        maxKeys := pageLimit input.maxKeys
        nextContinuationToken := page.nextMarker })

/-- `list_object_versions`. -/
def listObjectVersions (input : ListInput) : Site.SProg Blob S3Error S3Response := do
  match ← stampedPage input with
  | none => pure .aborted
  | some (page, contents) =>
    pure (.listObjectVersions
      { name := input.bucket
        pre := input.pre
        delimiter := input.delimiter
        keyMarker := input.marker
        versions := contents.map fun o => (o, true, text "null")
        commonPrefixes := nonEmpty page.commonPrefixes
        isTruncated := page.isTruncated
        nextKeyMarker := page.nextMarker
        nextVersionIdMarker := if page.isTruncated then some (text "null") else none
        maxKeys := pageLimit input.maxKeys })

/-- `list_objects`. -/
def listObjects (input : ListInput) : Site.SProg Blob S3Error S3Response := do
  match ← stampedPage input with
  | none => pure .aborted
  | some (page, contents) =>
    pure (.listObjects
      { name := input.bucket
        pre := input.pre
        delimiter := input.delimiter
        marker := input.marker
        contents := contents
        commonPrefixes := nonEmpty page.commonPrefixes
        isTruncated := page.isTruncated
        maxKeys := pageLimit input.maxKeys
        nextMarker := page.nextMarker })

/-- `list_buckets`: names and times of creation, which are not before 1970. -/
def listBuckets : Site.SProg Blob S3Error (List (Str × ℕ)) := do
  let names ← Site.listBuckets
  pure (names.map fun b => (b.1, b.2.toNat))

/-- The parts of a page, each with the time: number, size, etag, time. -/
def stampParts : List (ℤ × List Bytes × ℤ × Str) →
    Site.SProg Blob ε (List (ℤ × ℤ × Str × ℕ))
  | [] => pure []
  | (number, _, size, etag) :: parts => do
    let lastModified ← Site.systemTime
    let rest ← stampParts parts
    pure ((number, size, quoted etag, lastModified) :: rest)

/-- `list_parts`. -/
def listParts (bucket key : Str) (uploadId : Option Uuid) (partNumberMarker : Option Str)
    (maxParts : Option ℤ) : Site.SProg Blob S3Error ListPartsOutput := do
  let uploadId ← parsedUpload uploadId
  let _key ← uploadKey bucket uploadId
  let parts ← Site.listParts bucket uploadId
  let after := (partNumberMarker.bind (parseSigned 32)).getD 0
  let limit := pageLimit maxParts
  let filtered := parts.filter fun p => after < p.1
  let result ← stampParts (filtered.take limit)
  let isTruncated := decide (limit < filtered.length)
  pure
    { bucket := bucket
      key := key
      uploadId := uploadId
      parts := result
      maxParts := limit
      isTruncated := isTruncated
      nextPartNumberMarker :=
        if isTruncated then result.getLast?.map fun p => text (toString p.1) else none
      partNumberMarker := partNumberMarker }

/-- The uploads of a page, each with the time. -/
def stampUploads : List (Str × Uuid) → Site.SProg Blob ε (List (Str × Uuid × ℕ))
  | [] => pure []
  | (key, uploadId) :: uploads => do
    let initiated ← Site.systemTime
    let rest ← stampUploads uploads
    pure ((key, uploadId, initiated) :: rest)

/-- `list_multipart_uploads`. -/
def listMultipartUploads (bucket : Str) (pre keyMarker delimiter : Option Str)
    (maxUploads : Option ℤ) : Site.SProg Blob S3Error ListMultipartUploadsOutput := do
  let limit := pageLimit maxUploads
  let rows ← Site.listMultipartUploads bucket pre keyMarker limit
  let uploads ← stampUploads (rows.take limit)
  let isTruncated := decide (limit < rows.length)
  pure
    { bucket := bucket
      pre := pre
      keyMarker := keyMarker
      maxUploads := limit
      isTruncated := isTruncated
      uploads := nonEmpty uploads
      nextKeyMarker := if isTruncated then uploads.getLast?.map Prod.fst else none
      delimiter := delimiter }

/-! ### Every request -/

/-- `delete_objects`. -/
def deleteObjects (S : StorageBackend) (bucket : Str) (keys : List Str) :
    Site.SProg Blob S3Error (List Str) := do
  Prog.forEach (Site.deleteObject S.blake3 bucket) keys
  pure keys

/-- What a request runs once it is authorized. -/
def run (S : StorageBackend) : S3Request → Site.SProg Blob S3Error S3Response
  | .putObject bucket key body => .putObject <$> S.putObject bucket key body
  | .getObject bucket key range => .getObject <$> getObject bucket key range
  | .headObject bucket key => .headObject <$> headObject bucket key
  | .deleteObject bucket key => (fun _ => .empty) <$> S.deleteObject bucket key
  | .deleteObjects bucket keys => .deleteObjects <$> S.deleteObjects bucket keys
  | .copyObject source bucket key =>
    (fun out => .copied out.1 out.2) <$> S.copyObject source bucket key
  | .createMultipartUpload bucket key uploadId =>
    (fun out => .createMultipartUpload out.1 out.2.1 out.2.2) <$>
      createMultipartUpload bucket key uploadId
  | .uploadPart bucket _ uploadId partNumber body =>
    .uploadPart <$> S.uploadPart bucket uploadId partNumber body
  | .uploadPartCopy bucket _ uploadId partNumber source range =>
    (fun out => .copied out.1 out.2) <$>
      S.uploadPartCopy bucket uploadId partNumber source range
  | .completeMultipartUpload bucket key uploadId =>
    (fun out => .completeMultipartUpload out.1 out.2.1 out.2.2) <$>
      S.completeMultipartUpload bucket key uploadId
  | .abortMultipartUpload bucket _ uploadId =>
    (fun _ => .empty) <$> abortMultipartUpload bucket uploadId
  | .listParts bucket key uploadId marker maxParts =>
    .listParts <$> listParts bucket key uploadId marker maxParts
  | .listMultipartUploads bucket pre keyMarker delimiter maxUploads =>
    .listMultipartUploads <$> listMultipartUploads bucket pre keyMarker delimiter maxUploads
  | .listObjects input => listObjects input
  | .listObjectsV2 input => listObjectsV2 input
  | .listObjectVersions input => listObjectVersions input
  | .listBuckets => .listBuckets <$> listBuckets
  | .createBucket _ => pure .empty
  | .deleteBucket _ => pure .empty
  | .headBucket _ => pure .empty

/-- A request of the user with these credentials. -/
def handle (S : StorageBackend) (J : PolicyJson) (credentials : Option Str) (r : S3Request) :
    Site.SProg Blob S3Error S3Response := do
  authorize J credentials r.asks.1 r.asks.2.1 r.asks.2.2
  S.run r

end StorageBackend

/-- The policy of the user allows the request. -/
def S3Request.Allowed (J : PolicyJson) (credentials : Option Str) (s : Store) (r : S3Request) :
    Prop :=
  ∃ accessKey secret policy, credentials = some accessKey ∧
    s.getUser J accessKey = .ok (some (secret, policy)) ∧
    policy.isAllowed r.asks.1 (resourceOf r.asks.2.1 r.asks.2.2) = true

namespace StorageBackend

variable {Blob : BlobStore}

/-- **A request is carried out iff it is allowed**; one that is not changes nothing. -/
theorem wp_handle {S : StorageBackend} {J : PolicyJson} {credentials : Option Str} {r : S3Request}
    {s : Site Blob} {Q : Except S3Error S3Response → Site Blob → Prop}
    (hok : r.Allowed J credentials s.store → Prog.wp (S.run r) Q s)
    (hfail : ¬ r.Allowed J credentials s.store → ∀ e, Q (.error e) s) :
    Prog.wp (S.handle J credentials r) Q s := by
  refine Prog.wp_bind.2 ?_
  cases credentials with
  | none => exact hfail (fun ⟨_, _, _, h, _⟩ => nomatch h) _
  | some accessKey =>
    refine Prog.wp_bind.2 ((Site.wp_db _ _).2 ?_)
    cases huser : s.store.getUser J accessKey with
    | error e =>
      refine hfail ?_ _
      rintro ⟨_, _, _, hkey, h, -⟩
      cases hkey
      exact nomatch huser.symm.trans h
    | ok user =>
      cases user with
      | none =>
        refine hfail ?_ _
        rintro ⟨_, _, _, hkey, h, -⟩
        cases hkey
        exact nomatch huser.symm.trans h
      | some user =>
        obtain ⟨secret, policy⟩ := user
        dsimp only
        split_ifs with hallowed
        · exact hok ⟨accessKey, secret, policy, rfl, huser, hallowed⟩
        · refine hfail ?_ _
          rintro ⟨_, _, _, hkey, h, h'⟩
          cases hkey
          cases huser.symm.trans h
          exact hallowed h'

/-- A request that is allowed is run. -/
theorem exec_handle_of_allowed {S : StorageBackend} {J : PolicyJson} {credentials : Option Str}
    {r : S3Request} {s : Site Blob} (h : r.Allowed J credentials s.store) :
    (S.handle J credentials r).exec s = (S.run r).exec s :=
  wp_handle (Q := fun out s' => (s', out) = (S.run r).exec s) (fun _ => rfl) (absurd h)

end StorageBackend
end Shardscape
