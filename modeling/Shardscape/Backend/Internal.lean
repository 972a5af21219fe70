/-
# The internal interface

`src/main.rs`, `handle_internal_request`: what a site answers its peers, behind the
secret of the cluster.  `/internal/blocks` runs `get_block`, so a request for a
block may make this site fetch it from another in turn, and `/internal/gc/force` is
a forced sweep.

Paths and query strings are parsed already; a request carries the outcome.
-/

import Shardscape.Backend.Drain

namespace Shardscape

open Lib

/-- The part of `Config` a site tells its peers. -/
structure SiteConfig where
  localLocationId : Str
  advertiseAddr : Str

/-- A request of a peer, by its path. -/
inductive InternalRequest where
  | clusterConfig
  | nodes
  | join (id addr : Str)
  | facts (after : ℤ)
  | gcForce
  | blocks (hashHex : Str)
  | other

/-- The answer, by its status and body. -/
inductive InternalResponse where
  | clusterConfig (clusterTimeMicros : ℤ) (locationId advertiseAddr : Str)
  | nodes (nodes : List (Str × Str))
  | ok
  | facts (facts : List FactRecord)
  | block (data : Bytes)
  | badRequest (message : Str)
  | unauthorized
  | notFound

namespace Site

variable {Blob : BlobStore} {ε : Type}

/-- `handle_internal_request`. -/
def handleInternalRequest (cfg : SiteConfig) (gc : GcConfig) (secretMatches : Bool)
    (r : InternalRequest) : SProg Blob ε InternalResponse :=
  if secretMatches = false then pure .unauthorized
  else
    match r with
    | .clusterConfig => do
      let micros ← nowMicros
      pure (.clusterConfig micros cfg.localLocationId cfg.advertiseAddr)
    | .nodes => .nodes <$> allNodes
    | .join id addr =>
      if id.isEmpty ∨ addr.isEmpty then pure .ok
      else do
        recordPeer id addr
        pure .ok
    | .facts after => .facts <$> factsSince after factSyncBatch
    | .gcForce => do
      sweepOrphanedBlocks gc true
      pure .ok
    | .blocks hashHex =>
      match hexDecode hashHex with
      | none => pure (.badRequest (text "Invalid hash"))
      | some hash =>
        if hash.length ≠ 32 then pure (.badRequest (text "Hash must be 32 bytes"))
        else do
          match ← (getBlock hash).attempt with
          | .ok data => pure (.block data)
          | .error _ => pure .notFound
    | .other => pure .notFound

end Site
end Shardscape
