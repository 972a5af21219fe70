/-
# Copying into a part

`src/storage.rs`, `upload_part_copy`: a part made of a range of another object.  The
blocks of the range are read and cut as for a ranged GET, and the bytes go through
the chunker like a body that is received.

Unlike that of a GET, the range is taken as it comes.  Where it runs backwards
inside a block, the length `e - s + 1` of `slice_blocks_for_range` wraps around
(`copyTake`), as `u64`s do outside debug builds.
-/

import Shardscape.Backend.Handlers
import Shardscape.Lib.Decimal

namespace Shardscape

open Lib

/-- `strip_prefix("bytes=").unwrap_or(..)`. -/
def stripBytesUnit (range : Str) : Str :=
  if text "bytes=" <+: range then range.drop (text "bytes=").length else range

/-- `copy_source_range`: the two numbers around the first `-`. -/
def parseCopyRange (range : Str) : Except S3Error (ℕ × ℕ) :=
  let range := stripBytesUnit range
  if 45 ∉ range then .error ⟨.invalidArgument, text "Invalid copy source range"⟩
  else
    match parseUnsigned 64 (range.takeWhile (· ≠ 45)) with
    | none => .error ⟨.invalidArgument, text "Invalid range start"⟩
    | some start =>
      match parseUnsigned 64 ((range.dropWhile (· ≠ 45)).drop 1) with
      | none => .error ⟨.invalidArgument, text "Invalid range end"⟩
      | some stop => .ok (start, stop)

/-- The positions to copy: all of the source if no range is given. -/
def copyRange (size : ℤ) : Option Str → Except S3Error (ℕ × ℕ)
  | none => .ok (0, asU64 size - 1)
  | some range => parseCopyRange range

/-- The length of a slice on `u64`s.  A block that a range running backwards
overlaps holds both of its ends. -/
def copyTake (start stop take : ℕ) : ℕ :=
  if start ≤ stop then take else (stop + 1 + 2 ^ 64 - start) % 2 ^ 64

/-- `slice_blocks_for_range` on a range that is taken as it comes. -/
def copySlices (sizes : List ℤ) (start stop : ℕ) : List (ℕ × ℕ × ℕ) :=
  (sliceBlocksForRange sizes start stop).map fun p => (p.1, p.2.1, copyTake start stop p.2.2)

example : parseCopyRange (text "bytes=3-+5") = .ok (3, 5) := rfl

namespace StorageBackend

variable {Blob : BlobStore}

/-- The bytes of one slice go through the chunker. -/
def copySlice (S : StorageBackend) (blocks : List Bytes) (u : Upload) (slice : ℕ × ℕ × ℕ) :
    Site.SProg Blob S3Error Upload := do
  let data ← (Site.getBlock ((blocks[slice.1]?).getD [])).mapErr internal
  S.receiveFrame u (.ok (sliceBlockBytes data slice.2.1 (some slice.2.2)))

/-- What `upload_part_copy` does once it has found the source and the positions. -/
def copyPart (S : StorageBackend) (bucket : Str) (id : Uuid) (partNumber : ℤ) (blocks : List Bytes)
    (start stop : ℕ) : Site.SProg Blob S3Error (Str × ℕ) := do
  let sizes ← Site.blockSizes blocks
  let u ← (copySlices sizes start stop).foldlM (S.copySlice blocks) {}
  let u ← S.finishBody u
  let etag := S.uploadEtag u
  Site.insertPart bucket id partNumber u.blockHashes u.totalSize etag
  let lastModified ← Site.systemTime
  pure (quoted etag, lastModified)

/-- `upload_part_copy`: the etag and the time. -/
def uploadPartCopy (S : StorageBackend) (bucket : Str) (uploadId : Option Uuid) (partNumber : ℤ)
    (source : CopySource) (range : Option Str) : Site.SProg Blob S3Error (Str × ℕ) := do
  checkWritable
  let uploadId ← parsedUpload uploadId
  let _key ← uploadKey bucket uploadId
  match source with
  | .accessPoint => .fail ⟨.notImplemented, text "AccessPoint copy source not supported"⟩
  | .bucket srcBucket srcKey => do
    match ← Site.getObject srcBucket srcKey with
    | none => .fail ⟨.noSuchKey, text "Source object not found"⟩
    | some (srcBlocks, srcSize, _) => do
      let (start, stop) ← Prog.ofExcept (copyRange srcSize range)
      S.copyPart bucket uploadId partNumber srcBlocks start stop

end StorageBackend
end Shardscape
