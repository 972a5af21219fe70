/-
# The tables of a site

`src/store.rs`: the embedded metadata store of one site, as `Store::migrate`
creates it.  Every table is a keyed table of its rows; the fact log is the list of
the facts this site originated, in order, so that the `seq` of a row (an
`AUTOINCREMENT` key that nothing deletes) is its position counted from 1.

A manifest is stored as the concatenation of its 32-byte block hashes
(`encodeBlocks`, `decodeBlocks`).  Facts carry hashes and fids hex-encoded.  A
fact is stored and served as JSON; the log keeps the fact itself, and of the
policy inside a `UserPut`, a JSON value, its serialised text.  `blake3` is an
external crate: `Blake3` is a hash function with its one documented property used
here, the 32-byte digest.  The column `fact_log.kind` is never read and is left
out.
-/

import Shardscape.Lib.Bytes
import Shardscape.Lib.LwwTable

namespace Shardscape

open Lib

/-- The bytes of a text. -/
def text (s : String) : Str := ascii s.toList

/-- The `blake3` crate: a hash with 32-byte digests. -/
structure Blake3 where
  hash : Bytes → Bytes
  length_hash : ∀ d, (hash d).length = 32

/-- The hashes of chunks are digests. -/
theorem Blake3.length_of_mem_map_hash (B : Blake3) {ds : List Bytes} {b : Bytes}
    (h : b ∈ ds.map B.hash) : b.length = 32 := by
  obtain ⟨d, -, rfl⟩ := List.mem_map.1 h
  exact B.length_hash d

/-- `hashing.rs`, `NUM_SHARDS`. -/
def numShards : ℕ := 64

/-- `compute_shard_id`: the first byte of the digest of the key, modulo the
number of shards (`& (NUM_SHARDS - 1)`). -/
def computeShardId (B : Blake3) (key : Str) : ℤ :=
  (((B.hash key).headD 0).val &&& (numShards - 1) : ℕ)

/-- An upload id, the 128 bits of a UUID. -/
abbrev Uuid := Fin (2 ^ 128)

instance (priority := 2000) neZero_uuid : NeZero (2 ^ 128) := ⟨by decide⟩

/-- A row of `objects`. -/
structure ObjectRow where
  blocks : Bytes
  size : ℤ
  etag : Str
  shardId : ℤ
  updatedAt : ℤ
  deleted : Bool
  deriving DecidableEq

/-- A row of `blocks`. -/
structure BlockRow where
  size : ℤ
  updatedAt : ℤ
  deriving DecidableEq

/-- A row of `block_locations`. -/
structure LocationRow where
  fid : Bytes
  updatedAt : ℤ
  deriving DecidableEq

/-- A row of `users`; the policy is its JSON text. -/
structure UserRow where
  secretKey : Str
  policy : Str
  updatedAt : ℤ
  deriving DecidableEq

/-- A row of `parts`. -/
structure PartRow where
  blocks : Bytes
  size : ℤ
  etag : Str
  deriving DecidableEq

/-- A row of `nodes`. -/
structure NodeRow where
  apiUrl : Str
  lastHeartbeat : ℤ
  deriving DecidableEq

/-- A row of `replication_queue`. -/
structure QueueRow where
  nextAttemptAt : ℤ
  attempts : ℕ
  enqueuedAt : ℤ
  deriving DecidableEq

/-- `Fact`: one replicated metadata mutation. -/
inductive Fact where
  | objectPut (bucket key : Str) (blocks : List Str) (size : ℤ) (etag : Str)
  | objectDelete (bucket key : Str)
  | blockAnnounce (hash locationId fid : Str) (size : ℤ)
  | userPut (accessKey secretKey policy : Str)
  deriving DecidableEq

/-- `FactRecord`: a fact as served to peers. -/
structure FactRecord where
  seq : ℕ
  ts : ℤ
  fact : Fact
  deriving DecidableEq

/-- `Store`: the tables of one site. -/
structure Store where
  localLocationId : Str
  objects : Table (Str × Str) ObjectRow := ∅
  blocks : Table Bytes BlockRow := ∅
  blockLocations : Table (Bytes × Str) LocationRow := ∅
  pendingDeletions : Table Bytes ℤ := ∅
  users : Table Str UserRow := ∅
  multipartUploads : Table (Str × Uuid) Str := ∅
  parts : Table (Str × Uuid × ℤ) PartRow := ∅
  nodes : Table Str NodeRow := ∅
  replicationQueue : Table (Str × Bytes) QueueRow := ∅
  factLog : List (ℤ × Fact) := []
  replicationCursors : Table Str ℕ := ∅

/-- What can fail inside the store apart from SQLite itself: a hash or fid that
is not hexadecimal, a policy that is not the JSON of one. -/
inductive StoreError where
  | hex
  | json
  deriving DecidableEq

namespace Store

/-- `Store::new` on a fresh file. -/
def new (localLocationId : Str) : Store := { localLocationId := localLocationId }

/-- `encode_blocks`. -/
def encodeBlocks (blocks : List Bytes) : Bytes := blocks.flatten

/-- `decode_blocks`: the 32-byte hashes, a stray tail dropped. -/
def decodeBlocks (raw : Bytes) : List Bytes := chunksExact 32 raw

/-- A manifest of 32-byte hashes reads back as it was written. -/
theorem decodeBlocks_encodeBlocks {blocks : List Bytes} (h : ∀ b ∈ blocks, b.length = 32) :
    decodeBlocks (encodeBlocks blocks) = blocks :=
  chunksExact_flatten (by omega) h

/-- A manifest names hashes of 32 bytes. -/
theorem length_of_mem_decodeBlocks {raw b : Bytes} (h : b ∈ decodeBlocks raw) : b.length = 32 :=
  length_of_mem_chunksExact h

/-- `append_fact_tx`. -/
def appendFact (s : Store) (ts : ℤ) (fact : Fact) : Store :=
  { s with factLog := s.factLog ++ [(ts, fact)] }

end Store
end Shardscape
