/-
# The distributed block store

`src/storage.rs`, `DistributedBlockStore`: `store_block`, `get_block`,
`promote_block_locally`.

A block is put under its hash unless the site holds it already, and announced.  A
block the site does not hold is fetched from the peers that announced it, in turn,
promoted to a local copy (read-repair), and queued for the drainer when that
fails.  `add_usage` and `remove_reference` do nothing and are left out, with the
reads that only feed them.
-/

import Shardscape.Backend.Site

namespace Shardscape
namespace Site

open Lib

variable {Blob : BlobStore}

/-- `promote_block_locally`. -/
def promoteBlockLocally (hash data : Bytes) : SProg Blob Str Unit := do
  match ← getLocalBlockFid hash with
  | some _ => pure ()
  | none => do
    let fid ← blobPut hash data
    storeLocalBlock hash fid data.length

/-- `store_block`. -/
def storeBlock (B : Blake3) (blockData : Bytes) (size : ℤ) : SProg Blob Str Bytes := do
  let hash := B.hash blockData
  match ← getLocalBlockFid hash with
  | none => do
    let fid ← blobPut hash blockData
    storeLocalBlock hash fid size
    pure hash
  | some _ => pure hash

/-- The loop of `get_block` over the peers: the first that is listed as a holder
and answers gives the bytes. -/
def fetchFromHolders (locations : List (Str × Bytes)) (hash : Bytes) :
    List (Str × Str) → SProg Blob Str Bytes
  | [] => .fail (text "Block " ++ hexEncode hash ++ text " missing at all reachable locations")
  | (peerId, peerUrl) :: rest =>
    if peerId ∈ locations.map Prod.fst then do
      match ← noiseFetchBlock peerUrl hash with
      | .ok data => do
        match ← (promoteBlockLocally hash data).attempt with
        | .ok _ => pure data
        | .error _ => do
          enqueueReplication hash
          pure data
      | .error _ => fetchFromHolders locations hash rest
    else fetchFromHolders locations hash rest

/-- `get_block`. -/
def getBlock (hash : Bytes) : SProg Blob Str Bytes := do
  match ← getLocalBlockFid hash with
  | some fid => blobGet hash fid
  | none => do
    match ← getBlockFids hash with
    | none => .fail (text "Block " ++ hexEncode hash ++ text " not found in cluster")
    | some locations => do
      let peers ← getPeersWithUrls
      fetchFromHolders locations hash peers

end Site
end Shardscape
