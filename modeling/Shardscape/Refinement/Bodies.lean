/-
# What a site is for

An S3 site keeps bodies under buckets and keys.  `Bodies` is that map, with the
parts of the uploads in progress beside it, and `Bodies.serve` what each request
means for it: no blocks, no hashes, no manifests, no timestamps and no garbage
collection.  `Shardscape.Refinement.Runs` shows that a site, request by request,
answers as this map does.
-/

import Shardscape.Backend.Handlers

namespace Shardscape

open Lib StorageBackend

/-- Bodies by bucket and key; the key of each upload in progress; its parts by part
number. -/
structure Bodies where
  objects : Str × Str → Option Bytes
  uploads : Str × Uuid → Option Str
  parts : Str × Uuid → Table ℤ Bytes

namespace Bodies

/-- Nothing is stored. -/
def empty : Bodies := ⟨fun _ => none, fun _ => none, fun _ => ∅⟩

/-- The parts of an upload one after the other, in the order of their numbers. -/
def joined (parts : Table ℤ Bytes) : Bytes :=
  ((sortBy (fun n => n) parts.keys).map fun n => (parts.lookup n).getD []).flatten

/-- A body is stored, or removed. -/
def write (b : Bodies) (k : Str × Str) (body : Option Bytes) : Bodies :=
  { b with objects := Function.update b.objects k body }

/-- A part is stored, in place of one with the same number. -/
def addPart (b : Bodies) (u : Str × Uuid) (partNumber : ℤ) (body : Bytes) : Bodies :=
  { b with parts := Function.update b.parts u ((b.parts u).insert partNumber body) }

/-- An upload ends. -/
def forget (b : Bodies) (u : Str × Uuid) : Bodies :=
  { b with uploads := Function.update b.uploads u none, parts := Function.update b.parts u ∅ }

/-- The body a request brings, unless the disk guard refuses it, it has none, or
its stream fails. -/
def received (trip : Option GuardTrip) (body : Option (List (Except Str Bytes))) :
    Except S3Error Bytes :=
  match trip, body with
  | some trip, _ => .error ⟨.serviceUnavailable, tripMessage trip⟩
  | none, none => .error ⟨.invalidRequest, text "Missing body"⟩
  | none, some frames => (ChunkingStrategy.bodyOf frames).mapError internal

/-- The upload a request is about. -/
def upload (b : Bodies) (bucket : Str) (uploadId : Option Uuid) : Except S3Error (Uuid × Str) :=
  match uploadId with
  | none => .error ⟨.invalidRequest, text "Invalid upload id"⟩
  | some id =>
    match b.uploads (bucket, id) with
    | none => .error ⟨.noSuchUpload, text "Upload not found"⟩
    | some key => .ok (id, key)

/-- What a request does and whether it succeeds, when the disk guard says
`trip`. -/
def serve (b : Bodies) (trip : Option GuardTrip) : Request → Bodies × Except S3Error Unit
  | .putObject bucket key body =>
    match received trip body with
    | .error e => (b, .error e)
    | .ok data => (b.write (bucket, key) (some data), .ok ())
  | .copyObject .accessPoint _ _ =>
    (b, .error ⟨.notImplemented, text "AccessPoint copy source not supported"⟩)
  | .copyObject (.bucket srcBucket srcKey) bucket key =>
    match b.objects (srcBucket, srcKey) with
    | none => (b, .error ⟨.noSuchKey, text "Source object not found"⟩)
    | some data => (b.write (bucket, key) (some data), .ok ())
  | .deleteObject bucket key => (b.write (bucket, key) none, .ok ())
  | .createMultipartUpload bucket key uploadId =>
    ({ b with uploads := Function.update b.uploads (bucket, uploadId) (some key) }, .ok ())
  | .uploadPart bucket uploadId partNumber body =>
    match trip, b.upload bucket uploadId with
    | some trip, _ => (b, .error ⟨.serviceUnavailable, tripMessage trip⟩)
    | none, .error e => (b, .error e)
    | none, .ok (id, _) =>
      match received none body with
      | .error e => (b, .error e)
      | .ok data =>
        (b.addPart (bucket, id) partNumber data, .ok ())
  | .completeMultipartUpload bucket key uploadId =>
    match b.upload bucket uploadId with
    | .error e => (b, .error e)
    | .ok (id, storedKey) =>
      if storedKey ≠ key then
        (b, .error ⟨.invalidRequest, text "Key in request does not match key for this upload"⟩)
      else
        ((b.write (bucket, key) (some (joined (b.parts (bucket, id))))).forget (bucket, id),
          .ok ())
  | .abortMultipartUpload bucket uploadId =>
    match uploadId with
    | none => (b, .error ⟨.invalidRequest, text "Invalid upload id"⟩)
    | some id => (b.forget (bucket, id), .ok ())

/-- The body, or the bytes of it that a range picks. -/
def selection (body : Bytes) : Option Range → Except S3Error Bytes
  | none => .ok body
  | some range =>
    if range.select body = [] then
      .error ⟨.invalidRange, text "Requested range not satisfiable"⟩
    else .ok (range.select body)

/-- What a GET returns. -/
def get (b : Bodies) (k : Str × Str) (range : Option Range) : Except S3Error Bytes :=
  match b.objects k with
  | none => .error ⟨.noSuchKey, text "Not found"⟩
  | some body => selection body range

end Bodies

/-- What happens at a site: a request, or a sweep, scheduled or forced. -/
inductive BackendEvent where
  | request (r : Request)
  | sweep (force : Bool)

namespace BackendEvent

/-- The program of an event. -/
def run {Blob : BlobStore} (S : StorageBackend) : BackendEvent → Site.SProg Blob S3Error Unit
  | request r => S.serve r
  | sweep force => Site.sweepOrphanedBlocks S.gc force

/-- The chunks an event stores. -/
def chunks (S : StorageBackend) : BackendEvent → List Bytes
  | request r => r.chunks S
  | sweep _ => []

end BackendEvent

/-- What an event does to the bodies, and what it answers: a sweep does nothing. -/
def Bodies.after (b : Bodies) (trip : Option GuardTrip) :
    BackendEvent → Bodies × Except S3Error Unit
  | .request r => b.serve trip r
  | .sweep _ => (b, .ok ())

end Shardscape
