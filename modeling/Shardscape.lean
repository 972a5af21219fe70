import Shardscape.Access.BatchDelete
import Shardscape.Access.Decisions
import Shardscape.Access.Presets
import Shardscape.Access.Reads
import Shardscape.Backend.ChunkLoops
import Shardscape.Backend.LocalFiles
import Shardscape.Backend.Streaming
import Shardscape.Backend.WriteGuard
import Shardscape.Collector.FetchChains
import Shardscape.Collector.Grace
import Shardscape.Collector.LastCopyRuns
import Shardscape.Collector.RaceRuns
import Shardscape.Collector.RowAndFileRuns
import Shardscape.Collector.Usage
import Shardscape.Listing.Capped
import Shardscape.Listing.Merging
import Shardscape.Listing.Walk
import Shardscape.Membership.Spreading
import Shardscape.Ranged.Runs
import Shardscape.Refinement.Integrity
import Shardscape.Refinement.Sessions
import Shardscape.Replication.Causality
import Shardscape.Replication.Eventually
import Shardscape.Replication.Mirror
import Shardscape.Replication.Order
import Shardscape.Replication.Replay
import Shardscape.Replication.SyncLoop
import Shardscape.Transport.Opening
import Shardscape.Uploads.BoundKey
import Shardscape.Uploads.CopiedPart
import Shardscape.Uploads.Listed
import Shardscape.Uploads.Orphans
import Shardscape.Uploads.Pages
import Shardscape.Wire.Mesh
