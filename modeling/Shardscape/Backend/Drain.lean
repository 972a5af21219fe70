/-
# The replication drainer

`src/storage.rs`, `drain_replication_queue` and `plan_replication`: every due
entry of the queue is dropped, deferred, or fetched from a peer that holds the
block, promoted to a local copy and taken off the queue.  Under disk pressure the
cycle is a forced sweep instead.

The queries that only feed the log (`get_stuck_replications`) and the disk guard's
counters are left out.
-/

import Shardscape.Backend.Blocks
import Shardscape.Backend.Gc

namespace Shardscape

open Lib

/-- `ReplicationPlan`. -/
inductive ReplicationPlan where
  | drop
  | defer
  | fetchFrom (candidates : List (Str × Str))
  deriving DecidableEq

/-- `plan_replication`. -/
def planReplication (locations : List (Str × Bytes)) (localId : Str) (peers : List (Str × Str)) :
    ReplicationPlan :=
  if locations.isEmpty ∨ localId ∈ locations.map Prod.fst then .drop
  else
    let candidates := peers.filter fun p => p.1 ∈ locations.map Prod.fst
    if candidates.isEmpty then .defer else .fetchFrom candidates

namespace Site

variable {Blob : BlobStore} {ε : Type}

/-- The loop over the candidates: the first answer. -/
def fetchFirst (hash : Bytes) : List (Str × Str) → SProg Blob ε (Option Bytes)
  | [] => pure none
  | (_, peerUrl) :: rest => do
    match ← noiseFetchBlock peerUrl hash with
    | .ok data => pure (some data)
    | .error _ => fetchFirst hash rest

/-- One turn of the loop over the due entries. -/
def drainEntry (localId : Str) (peers : List (Str × Str)) (entry : ReplicationEntry) :
    SProg Blob ε Unit := do
  let locations ← getBlockFids entry.hash
  match planReplication (locations.getD []) localId peers with
  | .drop => dequeueReplication entry.hash
  | .defer => deferReplication entry
  | .fetchFrom candidates => do
    match ← fetchFirst entry.hash candidates with
    | none => deferReplication entry
    | some data => do
      match ← (promoteBlockLocally entry.hash data).attempt with
      | .ok _ => dequeueReplication entry.hash
      | .error _ => deferReplication entry

/-- `drain_replication_queue` of the site `localId`. -/
def drainReplicationQueue (cfg : GcConfig) (localId : Str) : SProg Blob ε Unit := do
  match ← diskGuard with
  | some _ => sweepOrphanedBlocks cfg true
  | none => do
    let entries ← getReplicationQueue
    match entries with
    | [] => pure ()
    | _ :: _ => do
      let peers ← getPeersWithUrls
      Prog.forEach (drainEntry localId peers) entries

end Site
end Shardscape
