/-
# Blocks, their locations, and the replication queue

`src/store.rs`: the block metadata (`upsert_block_location`, `store_local_block`,
`block_sizes`, `get_block_fids`, `get_local_block_fid`, `delete_local_block`), the
state of the garbage collector (`compute_live_block_set`,
`list_local_block_hashes`, `pending_deletions`), the queue of blocks to pull
(`enqueue_replication`, `get_replication_queue`, `dequeue_replication`,
`defer_replication`) and the peers it pulls from (`get_peers_with_urls`).

What these operations do to who holds a block, who is known to hold it and
whether it is queued is `Shardscape.Store.Holding`.
-/

import Shardscape.Store.Objects
import Mathlib.Data.List.Sort

namespace Shardscape

open Lib

/-- `ReplicationEntry`. -/
structure ReplicationEntry where
  hash : Bytes
  nextAttemptAt : ℤ
  attempts : ℕ
  enqueuedAt : ℤ
  deriving DecidableEq

/-- `REPLICATION_BACKOFF_BASE_MS`. -/
def replicationBackoffBaseMs : ℤ := 60000

/-- `REPLICATION_BACKOFF_CAP_MS`, six hours. -/
def replicationBackoffCapMs : ℤ := 6 * 60 * 60 * 1000

/-- `REPLICATION_DRAIN_PAGE`. -/
def replicationDrainPage : ℕ := 500

/-- `replication_backoff_ms`: one minute, doubled per attempt (the shift is at
most 40 and stays inside an `i64`), capped. -/
def replicationBackoffMs (attempts : ℕ) : ℤ :=
  if attempts = 0 then replicationBackoffBaseMs
  else min (replicationBackoffBaseMs * 2 ^ min attempts 40) replicationBackoffCapMs

namespace Store

/-! ### Block metadata -/

/-- `upsert_block_location`: the block row and the location row, each advancing
only on a newer `ts`. -/
def upsertBlockLocation (s : Store) (hash : Bytes) (locationId : Str) (fid : Bytes) (size ts : ℤ) :
    Store :=
  { s with
    blocks := Table.upsertNewer BlockRow.updatedAt s.blocks hash ⟨size, ts⟩
    blockLocations :=
      Table.upsertNewer LocationRow.updatedAt s.blockLocations (hash, locationId) ⟨fid, ts⟩ }

/-- `store_local_block`. -/
def storeLocalBlock (s : Store) (ts : ℤ) (hash fid : Bytes) (size : ℤ) : Store :=
  (s.upsertBlockLocation hash s.localLocationId fid size ts).appendFact ts
    (.blockAnnounce (hexEncode hash) s.localLocationId (hexEncode fid) size)

/-- `get_block_fids`: the locations of a block, `None` when there are none. -/
def getBlockFids (s : Store) (hash : Bytes) : Option (List (Str × Bytes)) :=
  let rows := s.blockLocations.entries.filterMap fun e =>
    if e.1.1 = hash then some (e.1.2, e.2.fid) else none
  if rows.isEmpty then none else some rows

/-- `block_sizes`: 0 for a block without a row. -/
def blockSizes (s : Store) (hashes : List Bytes) : List ℤ :=
  hashes.map fun h => ((s.blocks.lookup h).map BlockRow.size).getD 0

/-- `get_local_block_fid`. -/
def getLocalBlockFid (s : Store) (hash : Bytes) : Option Bytes :=
  (s.blockLocations.lookup (hash, s.localLocationId)).map LocationRow.fid

/-- `delete_local_block`: this site's location entry goes, and the block row with
it when no location is left.  Returns whether an entry was removed. -/
def deleteLocalBlock (s : Store) (hash : Bytes) : Store × Bool :=
  let locations := s.blockLocations.erase (hash, s.localLocationId)
  let remaining := (locations.entries.filter fun e => e.1.1 = hash).length
  ({ s with
      blockLocations := locations
      blocks := if remaining = 0 then s.blocks.erase hash else s.blocks },
    (s.blockLocations.lookup (hash, s.localLocationId)).isSome)

/-! ### Garbage collection state -/

/-- The blocks named by the live object rows. -/
def objectBlocks (s : Store) : List Bytes :=
  s.objects.entries.flatMap fun e => if e.2.deleted then [] else decodeBlocks e.2.blocks

/-- The blocks named by the parts of uploads in progress. -/
def partBlocks (s : Store) : List Bytes :=
  s.parts.entries.flatMap fun e => decodeBlocks e.2.blocks

/-- `compute_live_block_set`. -/
def computeLiveBlockSet (s : Store) : List Bytes := s.objectBlocks ++ s.partBlocks

/-- `list_local_block_hashes`. -/
def listLocalBlockHashes (s : Store) : List Bytes :=
  s.blockLocations.entries.filterMap fun e =>
    if e.1.2 = s.localLocationId then some e.1.1 else none

/-- `SUM` of SQLite over integers: an error where it leaves `i64`. -/
def sqlSum (l : List ℤ) : Option ℤ :=
  l.foldlM (fun sum n => if -2 ^ 63 ≤ sum + n ∧ sum + n < 2 ^ 63 then some (sum + n) else none) 0

/-- `local_block_bytes`: the sizes of the block rows that go with this site's location rows;
`none` is the error of `SUM`. -/
def localBlockBytes (s : Store) : Option ℤ :=
  sqlSum (s.blockLocations.entries.filterMap fun e =>
    if e.1.2 = s.localLocationId then (s.blocks.lookup e.1.1).map BlockRow.size else none)

/-- `add_pending_deletion`, `not_before` in milliseconds. -/
def addPendingDeletion (s : Store) (hash : Bytes) (notBefore : ℤ) : Store :=
  { s with pendingDeletions := s.pendingDeletions.insert hash notBefore }

/-- `get_pending_deletions`, collected into a map. -/
def getPendingDeletions (s : Store) : Table Bytes ℤ := s.pendingDeletions

/-- `remove_pending_deletion`. -/
def removePendingDeletion (s : Store) (hash : Bytes) : Store :=
  { s with pendingDeletions := s.pendingDeletions.erase hash }

/-! ### The replication queue -/

/-- `enqueue_replication`: nothing happens to an entry already queued. -/
def enqueueReplication (s : Store) (nowMs : ℤ) (hash : Bytes) (targetIds : List Str) : Store :=
  { s with
    replicationQueue := targetIds.foldl
      (fun q target => q.insertIfAbsent (target, hash) ⟨0, 0, nowMs⟩) s.replicationQueue }

/-- `get_replication_queue`: this site's entries that are due, oldest first, at
most a page. -/
def getReplicationQueue (s : Store) (nowMs : ℤ) : List ReplicationEntry :=
  let rows := s.replicationQueue.entries.filterMap fun e =>
    if e.1.1 = s.localLocationId ∧ e.2.nextAttemptAt ≤ nowMs then
      some (⟨e.1.2, e.2.nextAttemptAt, e.2.attempts, e.2.enqueuedAt⟩ : ReplicationEntry)
    else none
  (rows.insertionSort fun a b => a.nextAttemptAt ≤ b.nextAttemptAt).take replicationDrainPage

/-- `dequeue_replication`. -/
def dequeueReplication (s : Store) (hash : Bytes) : Store :=
  { s with replicationQueue := s.replicationQueue.erase (s.localLocationId, hash) }

/-- `defer_replication`: the backoff is that of the attempts the drainer read, the
count that of the row. -/
def deferReplication (s : Store) (nowMs : ℤ) (entry : ReplicationEntry) : Store :=
  { s with
    replicationQueue := s.replicationQueue.modify (s.localLocationId, entry.hash) fun row =>
      { row with
        nextAttemptAt := nowMs + replicationBackoffMs entry.attempts
        attempts := row.attempts + 1 } }

/-! ### Peers -/

/-- `upsert_node`. -/
def upsertNode (s : Store) (nowMs : ℤ) (locationId apiUrl : Str) : Store :=
  { s with nodes := s.nodes.insert locationId ⟨apiUrl, nowMs⟩ }

/-- `record_peer`: a site is not its own peer. -/
def recordPeer (s : Store) (nowMs : ℤ) (locationId apiUrl : Str) : Store :=
  if locationId = s.localLocationId then s else s.upsertNode nowMs locationId apiUrl

/-- `all_nodes`. -/
def allNodes (s : Store) : List (Str × Str) := s.nodes.entries.map fun e => (e.1, e.2.apiUrl)

/-- `get_peers`, also `get_peers_with_urls`. -/
def getPeers (s : Store) : List (Str × Str) :=
  s.allNodes.filter fun n => n.1 ≠ s.localLocationId

end Store
end Shardscape
