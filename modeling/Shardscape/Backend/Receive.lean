/-
# Receiving a body is storing its chunks

`put_object` and `upload_part` (`src/storage.rs`) cut a body while its frames come
in, with a buffer between the frames.  As a program that is the same as storing the
chunks of the body one after the other (`storeAll`), and then answering with the
upload, or with the error the stream broke off with (`receiveBody_eq`).
-/

import Shardscape.Backend.Handlers

namespace Shardscape
namespace StorageBackend

open Lib

variable {Blob : BlobStore}

/-- Chunks stored as blocks, one after the other: their hashes. -/
def storeAll (S : StorageBackend) : List Bytes → Site.SProg Blob S3Error (List Bytes)
  | [] => pure []
  | d :: ds => do
    let hash ← (Site.storeBlock S.blake3 d d.length).mapErr internal
    let hashes ← S.storeAll ds
    pure (hash :: hashes)

/-- An upload with the chunks `ds` added, stored under `hashes`. -/
def addChunks (u : Upload) (ds hashes : List Bytes) : Upload :=
  { u with
    blockHashes := u.blockHashes ++ hashes
    totalSize := u.totalSize + (ds.flatten.length : ℕ) }

/-- Chunks are stored one after the other. -/
theorem storeAll_append (S : StorageBackend) (ds ds' : List Bytes) :
    (S.storeAll (ds ++ ds') : Site.SProg Blob S3Error (List Bytes)) =
      S.storeAll ds >>= fun hashes => S.storeAll ds' >>= fun hashes' =>
        pure (hashes ++ hashes') := by
  induction ds with
  | nil => simp [storeAll]
  | cons d ds ih => simp [storeAll, ih]

/-- To add the chunks one by one is to store them all and add their hashes. -/
theorem foldlM_storeChunk (S : StorageBackend) (u : Upload) (ds : List Bytes) :
    (ds.foldlM S.storeChunk u : Site.SProg Blob S3Error Upload) =
      S.storeAll ds >>= fun hashes => pure (addChunks u ds hashes) := by
  induction ds generalizing u with
  | nil => simp [storeAll, addChunks]
  | cons d ds ih => simp [storeAll, storeChunk, ih, addChunks, add_assoc]

/-- A frame completes some chunks, and the rest of it waits. -/
theorem receiveFrame_ok (S : StorageBackend) (u : Upload) (frame : Bytes) :
    (S.receiveFrame u (.ok frame) : Site.SProg Blob S3Error Upload) =
      (S.chunker.processed S.fastcdc (u.currentChunk ++ frame)).1.foldlM S.storeChunk
        { u with
          currentChunk := (S.chunker.processed S.fastcdc (u.currentChunk ++ frame)).2
          hashed := u.hashed ++ frame } :=
  rfl

/-- At the end the chunk that waits is stored, if it is not empty. -/
theorem finishBody_eq (S : StorageBackend) (u : Upload) :
    (S.finishBody u : Site.SProg Blob S3Error Upload) =
      S.storeAll (ChunkingStrategy.finalize u.currentChunk).toList >>= fun hashes =>
        pure (addChunks { u with currentChunk := [] }
          (ChunkingStrategy.finalize u.currentChunk).toList hashes) := by
  obtain ⟨blockHashes, totalSize, currentChunk, hashed⟩ := u
  cases currentChunk with
  | nil => simp [finishBody, ChunkingStrategy.finalize, storeAll, addChunks]
  | cons c cs => simp [finishBody, ChunkingStrategy.finalize, storeAll, storeChunk, addChunks]

/-- The frames still to come, with a buffer from those before. -/
theorem receiveFrames_eq (S : StorageBackend) (frames : List (Except Str Bytes)) (u : Upload) :
    (frames.foldlM S.receiveFrame u >>= S.finishBody : Site.SProg Blob S3Error Upload) =
      S.storeAll (S.chunker.chunks S.fastcdc frames u.currentChunk) >>= fun hashes =>
        match ChunkingStrategy.bodyOf frames with
        | .ok data => pure (addChunks { u with currentChunk := [], hashed := u.hashed ++ data }
            (S.chunker.chunks S.fastcdc frames u.currentChunk) hashes)
        | .error e => .fail (internal e) := by
  induction frames generalizing u with
  | nil => simp [finishBody_eq, ChunkingStrategy.chunks, ChunkingStrategy.bodyOf]
  | cons res frames ih =>
    cases res with
    | error e => rfl
    | ok frame =>
      simp only [List.foldlM_cons, ChunkingStrategy.chunks, storeAll_append, receiveFrame_ok,
        foldlM_storeChunk, bind_assoc, pure_bind]
      refine congrArg _ (funext fun hashes => ?_)
      rw [ih]
      refine congrArg _ (funext fun hashes' => ?_)
      cases h : ChunkingStrategy.bodyOf frames <;>
        simp [ChunkingStrategy.bodyOf, h, addChunks, add_assoc]

/-- **Receiving a body is storing its chunks.** -/
theorem receiveBody_eq (S : StorageBackend) (body : List (Except Str Bytes)) :
    (S.receiveBody body : Site.SProg Blob S3Error Upload) =
      S.storeAll (S.chunker.chunks S.fastcdc body []) >>= fun hashes =>
        match ChunkingStrategy.bodyOf body with
        | .ok data => pure
            { blockHashes := hashes
              totalSize := ((S.chunker.chunks S.fastcdc body []).flatten.length : ℕ)
              hashed := data }
        | .error e => .fail (internal e) := by
  refine (receiveFrames_eq S body {}).trans (congrArg _ (funext fun hashes => ?_))
  cases ChunkingStrategy.bodyOf body <;> simp [addChunks]

/-- The disk guard. -/
theorem wp_checkWritable {Q : Except S3Error Unit → Site Blob → Prop} {s : Site Blob} :
    Prog.wp checkWritable Q s ↔
      match s.oracle.guardTrip s.tick with
      | some trip => Q (.error ⟨.serviceUnavailable, tripMessage trip⟩)
          { s with tick := s.tick + 1 }
      | none => Q (.ok ()) { s with tick := s.tick + 1 } := by
  simp only [checkWritable, Site.diskGuard, Prog.wp_bind, Site.wp_ask]
  cases s.oracle.guardTrip s.tick <;> exact Iff.rfl

/-- The upload of a request. -/
theorem wp_named_bind {α : Type} {s : Site Blob} {bucket : Str} {uploadId : Option Uuid}
    {k : Uuid → Str → Site.SProg Blob S3Error α} {Q : Except S3Error α → Site Blob → Prop}
    (hok : ∀ id storedKey, uploadId = some id → s.store.getMultipartKey bucket id = some storedKey →
      Prog.wp (k id storedKey) Q s)
    (hfail : (¬ ∃ storedKey id, uploadId = some id ∧
      s.store.getMultipartKey bucket id = some storedKey) → ∀ e, Q (.error e) s) :
    Prog.wp (parsedUpload uploadId >>= fun id => uploadKey bucket id >>= k id) Q s := by
  cases uploadId with
  | none =>
    refine hfail ?_ _
    rintro ⟨storedKey, id, ⟨⟩, -⟩
  | some id =>
    refine Prog.wp_bind.2 ((Prog.wp_pure _).2 (Prog.wp_bind.2 (Prog.wp_bind.2
      ((Site.wp_db _ _).2 ?_))))
    cases hstored : s.store.getMultipartKey bucket id with
    | some storedKey => exact hok id storedKey rfl hstored
    | none =>
      refine hfail ?_ _
      rintro ⟨storedKey, id', hid, hkey⟩
      cases hid
      cases hstored.symm.trans hkey

end StorageBackend
end Shardscape
