/-
# The S3 requests

`src/storage.rs`, `impl S3 for StorageBackend`: `put_object`, `get_object`,
`head_object`, `delete_object`, `copy_object`, `create_multipart_upload`,
`upload_part`, `complete_multipart_upload`, `abort_multipart_upload`, as programs
over a site.

`put_object` and `upload_part` receive a body the same way (`receiveBody`): frame
by frame, every complete chunk stored as a block before the next frame is read.
The parsing of an upload id is external: a request carries its outcome.  `md5` is
external too, and hashing in pieces is hashing their concatenation.

`authorize`, the reads that only feed the reference counts that are no longer
kept (`remove_reference`, `add_usage` do nothing) and the log lines are left out.
-/

import Shardscape.Backend.Blocks
import Shardscape.Backend.Chunking
import Shardscape.Backend.Gc
import Shardscape.Backend.Range

namespace Shardscape

open Lib

/-- The `S3ErrorCode`s the requests answer with. -/
inductive S3ErrorCode where
  | accessDenied
  | internalError
  | invalidArgument
  | invalidRange
  | invalidRequest
  | noSuchKey
  | noSuchUpload
  | notImplemented
  | serviceUnavailable
  | slowDown
  deriving DecidableEq

/-- `S3Error`. -/
structure S3Error where
  code : S3ErrorCode
  message : Str
  deriving DecidableEq

/-- `StorageBackend`: the hashes, the chunker and the configuration of the collector.  The
chunker's sizes are positive, so that the loops of `process` end, and fit, so that `process`
does not panic. -/
structure StorageBackend where
  blake3 : Blake3
  md5 : Bytes → Bytes
  fastcdc : FastCdc
  chunker : ChunkingStrategy
  positive : chunker.Positive
  fits : chunker.Fits fastcdc
  gc : GcConfig

/-- `CopySource`. -/
inductive CopySource where
  | bucket (bucket key : Str)
  | accessPoint

/-- A body that is being received: the blocks stored so far, their total size, the
buffer, and the bytes hashed. -/
structure Upload where
  blockHashes : List Bytes := []
  totalSize : ℤ := 0
  currentChunk : Bytes := []
  hashed : Bytes := []

/-- `GetObjectOutput`; the body is its frames, up to the first that fails. -/
structure GetObjectOutput where
  body : List (Except S3Error Bytes)
  contentLength : ℤ
  contentRange : Option Str
  acceptRanges : Str
  eTag : Str
  lastModified : ℕ

/-- `HeadObjectOutput`. -/
structure HeadObjectOutput where
  contentLength : ℤ
  eTag : Str
  lastModified : ℕ

/-- An etag between double quotes. -/
def quoted (etag : Str) : Str := 34 :: etag ++ [34]

/-- `trim_matches('"')`. -/
def trimQuotes (etag : Str) : Str :=
  ((etag.dropWhile (· == 34)).reverse.dropWhile (· == 34)).reverse

/-- `as u64` on an `i64`. -/
def asU64 (n : ℤ) : ℕ := if 0 ≤ n then n.toNat else (n + 2 ^ 64).toNat

/-- A length is cast as it is. -/
theorem asU64_natCast (n : ℕ) : asU64 n = n := by
  rw [asU64, if_pos (Int.natCast_nonneg _), Int.toNat_natCast]

namespace StorageBackend

variable {Blob : BlobStore}

/-- The message of `check_writable`. -/
def tripMessage : GuardTrip → Str
  | .lowFreeSpace free reserve =>
    text "node is low on disk space (" ++ free ++ text " free, reserve " ++ reserve ++
      text "); write rejected"
  | .overQuota used cap =>
    text "node has reached storage quota (" ++ used ++ text " used, cap " ++ cap ++
      text "); write rejected"

/-- `check_writable`. -/
def checkWritable : Site.SProg Blob S3Error Unit := do
  match ← Site.diskGuard with
  | some trip => .fail ⟨.serviceUnavailable, tripMessage trip⟩
  | none => pure ()

/-- `InternalError` with the message of a failure underneath. -/
def internal (e : Str) : S3Error := ⟨.internalError, e⟩

/-! ### Receiving a body -/

/-- A complete chunk becomes a block. -/
def storeChunk (S : StorageBackend) (u : Upload) (blockData : Bytes) :
    Site.SProg Blob S3Error Upload := do
  let hash ← (Site.storeBlock S.blake3 blockData blockData.length).mapErr internal
  pure { u with
    blockHashes := u.blockHashes ++ [hash]
    totalSize := u.totalSize + blockData.length }

/-- One frame of the stream: `process` takes off the complete chunks, and they are stored.  It
does not panic, for the sizes of a backend fit. -/
def receiveFrame (S : StorageBackend) (u : Upload) (res : Except Str Bytes) :
    Site.SProg Blob S3Error Upload := do
  let chunk ← Prog.ofExcept (res.mapError internal)
  let r := S.chunker.processed S.fastcdc (u.currentChunk ++ chunk)
  r.1.foldlM S.storeChunk { u with currentChunk := r.2, hashed := u.hashed ++ chunk }

/-- The end of the stream: what is left in the buffer becomes the last block. -/
def finishBody (S : StorageBackend) (u : Upload) : Site.SProg Blob S3Error Upload :=
  match ChunkingStrategy.finalize u.currentChunk with
  | some blockData => S.storeChunk { u with currentChunk := [] } blockData
  | none => pure u

/-- What `put_object` and `upload_part` do with a body. -/
def receiveBody (S : StorageBackend) (body : List (Except Str Bytes)) :
    Site.SProg Blob S3Error Upload := do
  let u ← body.foldlM S.receiveFrame {}
  S.finishBody u

/-- The etag of a received body. -/
def uploadEtag (S : StorageBackend) (u : Upload) : Str := hexEncode (S.md5 u.hashed)

/-! ### Objects -/

/-- `put_object`: the etag. -/
def putObject (S : StorageBackend) (bucket key : Str) (body : Option (List (Except Str Bytes))) :
    Site.SProg Blob S3Error Str := do
  checkWritable
  match body with
  | none => .fail ⟨.invalidRequest, text "Missing body"⟩
  | some body => do
    let u ← S.receiveBody body
    let etag := S.uploadEtag u
    Site.insertObject bucket (computeShardId S.blake3 key) key u.blockHashes u.totalSize etag
    pure (quoted etag)

/-- The blocks to read for a GET, each with the bytes to skip and to take, and the
`Content-Length` and `Content-Range` that go with them. -/
def readPlan (blocks : List Bytes) (size : ℤ) :
    Option Range → Site.SProg Blob S3Error (List (Bytes × ℕ × Option ℕ) × ℤ × Option Str)
  | none => pure (blocks.map fun h => (h, 0, none), size, none)
  | some range =>
    match resolveRange range (asU64 size) with
    | none => .fail ⟨.invalidRange, text "Requested range not satisfiable"⟩
    | some (start, stop) => do
      let sizes ← Site.blockSizes blocks
      pure ((sliceBlocksForRange sizes start stop).map fun p =>
          ((blocks[p.1]?).getD [], p.2.1, some p.2.2),
        ((stop - start + 1 : ℕ) : ℤ),
        some (text "bytes " ++ text (toString start) ++ text "-" ++ text (toString stop) ++
          text "/" ++ text (toString size)))

/-- The blocks after the first, streamed in order until one fails. -/
def streamRest : List (Bytes × ℕ × Option ℕ) →
    Site.SProg Blob S3Error (List (Except S3Error Bytes))
  | [] => pure []
  | (hash, skip, take) :: plan => do
    match ← (Site.getBlock hash).attempt with
    | .ok data => do
      let rest ← streamRest plan
      pure (.ok (sliceBlockBytes data skip take) :: rest)
    | .error e => pure [.error (internal e)]

/-- The first block, fetched before the response is sent: its failure is the
response. -/
def firstFrame : List (Bytes × ℕ × Option ℕ) →
    Site.SProg Blob S3Error (List (Except S3Error Bytes))
  | [] => pure []
  | (hash, skip, take) :: _ => do
    let data ← (Site.getBlock hash).mapErr fun e =>
      ⟨.slowDown, text "block unavailable: " ++ e⟩
    pure [.ok (sliceBlockBytes data skip take)]

/-- `get_object`, once it has found the row of its key. -/
def readBody (blocks : List Bytes) (size : ℤ) (etag : Str) (range : Option Range) :
    Site.SProg Blob S3Error GetObjectOutput := do
  let (plan, contentLength, contentRange) ← readPlan blocks size range
  let first ← firstFrame plan
  let lastModified ← Site.systemTime
  let rest ← streamRest plan.tail
  pure ⟨first ++ rest, contentLength, contentRange, text "bytes", quoted etag, lastModified⟩

/-- `get_object`. -/
def getObject (bucket key : Str) (range : Option Range) :
    Site.SProg Blob S3Error GetObjectOutput := do
  match ← Site.getObject bucket key with
  | none => .fail ⟨.noSuchKey, text "Not found"⟩
  | some (blocks, size, etag) => readBody blocks size etag range

/-- `head_object`. -/
def headObject (bucket key : Str) : Site.SProg Blob S3Error HeadObjectOutput := do
  match ← Site.getObject bucket key with
  | none => .fail ⟨.noSuchKey, text "Not found"⟩
  | some (_, size, etag) => do
    let lastModified ← Site.systemTime
    pure ⟨size, quoted etag, lastModified⟩

/-- `delete_object`. -/
def deleteObject (S : StorageBackend) (bucket key : Str) : Site.SProg Blob S3Error Unit :=
  Site.deleteObject S.blake3 bucket key

/-- `copy_object`: the etag and the time. -/
def copyObject (S : StorageBackend) (source : CopySource) (bucket key : Str) :
    Site.SProg Blob S3Error (Str × ℕ) :=
  match source with
  | .accessPoint => .fail ⟨.notImplemented, text "AccessPoint copy source not supported"⟩
  | .bucket srcBucket srcKey => do
    match ← Site.getObject srcBucket srcKey with
    | none => .fail ⟨.noSuchKey, text "Source object not found"⟩
    | some (blocks, size, etag) => do
      Site.insertObject bucket (computeShardId S.blake3 key) key blocks size etag
      let lastModified ← Site.systemTime
      pure (quoted etag, lastModified)

/-! ### Uploads in parts -/

/-- The upload of a request. -/
def parsedUpload (uploadId : Option Uuid) : Site.SProg Blob S3Error Uuid :=
  match uploadId with
  | none => .fail ⟨.invalidRequest, text "Invalid upload id"⟩
  | some uploadId => pure uploadId

/-- The key of an upload in progress. -/
def uploadKey (bucket : Str) (uploadId : Uuid) : Site.SProg Blob S3Error Str := do
  match ← Site.getMultipartKey bucket uploadId with
  | none => .fail ⟨.noSuchUpload, text "Upload not found"⟩
  | some key => pure key

/-- `create_multipart_upload`, with the id `Uuid::new_v4` gave. -/
def createMultipartUpload (bucket key : Str) (uploadId : Uuid) :
    Site.SProg Blob S3Error (Str × Str × Uuid) := do
  Site.insertMultipart bucket uploadId key
  pure (bucket, key, uploadId)

/-- `upload_part`: the etag. -/
def uploadPart (S : StorageBackend) (bucket : Str) (uploadId : Option Uuid) (partNumber : ℤ)
    (body : Option (List (Except Str Bytes))) : Site.SProg Blob S3Error Str := do
  checkWritable
  let uploadId ← parsedUpload uploadId
  let _key ← uploadKey bucket uploadId
  match body with
  | none => .fail ⟨.invalidRequest, text "Missing body"⟩
  | some body => do
    let u ← S.receiveBody body
    let etag := S.uploadEtag u
    Site.insertPart bucket uploadId partNumber u.blockHashes u.totalSize etag
    pure (quoted etag)

/-- What `complete_multipart_upload` gathers from the parts: the blocks, the size
and the bytes of the etags. -/
def gatherParts : List (ℤ × List Bytes × ℤ × Str) → Except S3Error (List Bytes × ℤ × Bytes)
  | [] => .ok ([], 0, [])
  | (_, blocks, size, etag) :: parts =>
    match hexDecode (trimQuotes etag) with
    | none => .error (internal (text "Invalid part etag"))
    | some etagBytes =>
      match gatherParts parts with
      | .error e => .error e
      | .ok (blocks', size', etags) => .ok (blocks ++ blocks', size + size', etagBytes ++ etags)

/-- What is gathered: all blocks in the order of the parts, and the sum of the sizes. -/
theorem gatherParts_ok {l : List (ℤ × List Bytes × ℤ × Str)} {blocks : List Bytes} {size : ℤ}
    {etags : Bytes} (h : gatherParts l = .ok (blocks, size, etags)) :
    blocks = (l.flatMap fun p => p.2.1) ∧ size = (l.map fun p => p.2.2.1).sum := by
  induction l generalizing blocks size etags with
  | nil =>
    obtain ⟨hblocks, hrest⟩ := Prod.mk.inj (Except.ok.inj h)
    exact ⟨hblocks.symm, (Prod.mk.inj hrest).1.symm⟩
  | cons p l ih =>
    obtain ⟨n, blocks', size', etag⟩ := p
    rw [gatherParts] at h
    split at h
    · exact nomatch h
    · split at h
      · exact nomatch h
      · rename_i hrest
        rw [Except.ok.injEq, Prod.mk.injEq, Prod.mk.injEq] at h
        obtain ⟨hblocks, hsize⟩ := ih hrest
        rw [← h.1, ← h.2.1, hblocks, hsize, List.flatMap_cons, List.map_cons, List.sum_cons]
        exact ⟨rfl, rfl⟩

/-- `complete_multipart_upload`: bucket, key and etag. -/
def completeMultipartUpload (S : StorageBackend) (bucket key : Str) (uploadId : Option Uuid) :
    Site.SProg Blob S3Error (Str × Str × Str) := do
  let uploadId ← parsedUpload uploadId
  let storedKey ← uploadKey bucket uploadId
  if storedKey ≠ key then
    .fail ⟨.invalidRequest, text "Key in request does not match key for this upload"⟩
  else do
    let parts ← Site.listParts bucket uploadId
    let (blocks, totalSize, etags) ← Prog.ofExcept (gatherParts (sortBy Prod.fst parts))
    let finalEtag := hexEncode (S.md5 etags) ++ text "-" ++ text (toString blocks.length)
    Site.insertObject bucket (computeShardId S.blake3 key) key blocks totalSize finalEtag
    Site.deleteMultipartUpload bucket uploadId
    pure (bucket, key, quoted finalEtag)

/-- `abort_multipart_upload`. -/
def abortMultipartUpload (bucket : Str) (uploadId : Option Uuid) :
    Site.SProg Blob S3Error Unit := do
  let uploadId ← parsedUpload uploadId
  Site.deleteMultipartUpload bucket uploadId

/-! ### The requests that change a site -/

/-- A request, with its input. -/
inductive Request where
  | putObject (bucket key : Str) (body : Option (List (Except Str Bytes)))
  | copyObject (source : CopySource) (bucket key : Str)
  | deleteObject (bucket key : Str)
  | createMultipartUpload (bucket key : Str) (uploadId : Uuid)
  | uploadPart (bucket : Str) (uploadId : Option Uuid) (partNumber : ℤ)
      (body : Option (List (Except Str Bytes)))
  | completeMultipartUpload (bucket key : Str) (uploadId : Option Uuid)
  | abortMultipartUpload (bucket : Str) (uploadId : Option Uuid)

/-- What a request runs; of its output only whether it is one. -/
def serve (S : StorageBackend) : Request → Site.SProg Blob S3Error Unit
  | .putObject bucket key body => do
    let _ ← S.putObject bucket key body
    pure ()
  | .copyObject source bucket key => do
    let _ ← S.copyObject source bucket key
    pure ()
  | .deleteObject bucket key => S.deleteObject bucket key
  | .createMultipartUpload bucket key uploadId => do
    let _ ← createMultipartUpload bucket key uploadId
    pure ()
  | .uploadPart bucket uploadId partNumber body => do
    let _ ← S.uploadPart bucket uploadId partNumber body
    pure ()
  | .completeMultipartUpload bucket key uploadId => do
    let _ ← S.completeMultipartUpload bucket key uploadId
    pure ()
  | .abortMultipartUpload bucket uploadId => abortMultipartUpload bucket uploadId

/-- The chunks a request cuts its body into. -/
def Request.chunks (S : StorageBackend) : Request → List Bytes
  | .putObject _ _ (some body) => S.chunker.chunks S.fastcdc body []
  | .uploadPart _ _ _ (some body) => S.chunker.chunks S.fastcdc body []
  | _ => []

end StorageBackend
end Shardscape
