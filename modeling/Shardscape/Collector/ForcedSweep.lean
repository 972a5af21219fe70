/-
# A sweep against the requests beside it

`sweep_orphaned_blocks` (`src/storage.rs`) computes the live set in its first call
and deletes in later ones.  A forced sweep waits for no grace period, so what it
deletes was unreferenced at the first call, and need not be when the deletion comes:
`put_object` may store and name the block in between (`named_when_reaped`).

That is the only way: as long as no call after the snapshot makes a manifest or a part
name a block, nothing names it when the sweep deletes it (`sweep_spares_named`).
Nothing else is asked of the other threads: they may run any program.
-/

import Shardscape.Backend.RequestEffects
import Shardscape.Collector.Race
import Shardscape.Refinement.Runs

namespace Shardscape
namespace Race

open Lib

variable {Blob : BlobStore} {κ : Type} [DecidableEq κ]

/-- A call makes a manifest or a part name `h`, which none named before. -/
def NewlyNames (h : Bytes) (c : Site.Threads κ Blob S3Error)
    (m : Move κ Call (Site Blob) S3Error) : Prop :=
  h ∈ (c.advance m).world.1.store.computeLiveBlockSet ∧
    h ∉ c.world.1.store.computeLiveBlockSet

instance (h : Bytes) (c : Site.Threads κ Blob S3Error) (m : Move κ Call (Site Blob) S3Error) :
    Decidable (NewlyNames h c m) :=
  inferInstanceAs (Decidable (_ ∧ _))

/-- The sweep of thread `i` has read the live set `live`, and has `h` in it if `h` is
named. -/
structure Snapshot (i : κ) (live : List Bytes) (h : Bytes)
    (c : Site.Threads κ Blob S3Error) : Prop where
  named : h ∈ c.world.1.store.computeLiveBlockSet → h ∈ live
  sweeping : Site.Makes (fun _ => True) (Site.sweeps live) (c.threads i)

/-- The first call of a sweep takes the snapshot. -/
theorem snapshot_first {cfg : GcConfig} {force : Bool} {c : Site.Threads κ Blob S3Error} {i : κ}
    (hi : c.threads i = Site.sweepOrphanedBlocks cfg force) (h : Bytes) :
    Snapshot i c.world.1.store.computeLiveBlockSet h (c.advance (.step i)) := by
  have hstep : c.advance (.step i) = ⟨c.world, Function.update c.threads i
      (Site.sweepFrom cfg force c.world.1.store.computeLiveBlockSet)⟩ := by
    rw [Site.sweepOrphanedBlocks_eq] at hi
    simp only [Conf.advance, Conf.move, hi]
    rfl
  rw [hstep]
  refine ⟨fun hh => hh, ?_⟩
  simpa using Site.makes_sweepFrom (I := fun _ => True) cfg force _

/-- One move beside the sweep, or of the sweep, keeps the snapshot good. -/
theorem Snapshot.advance {i : κ} {live : List Bytes} {h : Bytes} {c : Site.Threads κ Blob S3Error}
    {m : Move κ Call (Site Blob) S3Error} (hsnap : Snapshot i live h c)
    (hm : (∀ p, m ≠ .spawn i p) ∧ ¬ NewlyNames h c m) : Snapshot i live h (c.advance m) := by
  refine ⟨fun hh => hsnap.named ?_, Conf.calls_advance hsnap.sweeping hm.1⟩
  by_contra hno
  exact hm.2 ⟨hh, hno⟩

/-- **A sweep spares what is named.**  Whatever the other threads run, if no call
after the snapshot makes anything name `h`, then nothing names `h` at the moment the
sweep deletes it. -/
theorem sweep_spares_named (cfg : GcConfig) (force : Bool) (c : Site.Threads κ Blob S3Error) (i : κ)
    (hi : c.threads i = Site.sweepOrphanedBlocks cfg force)
    (ms : List (Move κ Call (Site Blob) S3Error)) (hgoes : ∀ m ∈ ms, ∀ p, m ≠ .spawn i p)
    (h : Bytes)
    (hnames : ∀ p ∈ trace Conf.advance (c.advance (.step i)) ms, ¬ NewlyNames h p.1 p.2) :
    ∀ p ∈ trace Conf.advance (c.advance (.step i)) ms, p.2 = .step i →
      p.1.nextCall i = some (.deleteLocalBlock h) → ¬ Named p.1.world.1.store h := by
  intro p hp _ hcall hnamed
  have hsnap : Snapshot i c.world.1.store.computeLiveBlockSet h p.1 := by
    refine invariant_of_trace (C := fun c m => (∀ p, m ≠ .spawn i p) ∧ ¬ NewlyNames h c m)
      (fun c m hc hm => hc.advance hm) (snapshot_first hi h) ?_ p hp
    exact fun q hq => ⟨hgoes q.2 (mem_of_mem_trace hq), hnames q hq⟩
  obtain ⟨-, hdead, -⟩ := Conf.calls_nextCall hsnap.sweeping hcall p.1.world.1
  exact hdead (hsnap.named (Store.mem_computeLiveBlockSet.2 hnamed))

/-! ### Two runs -/

/-- The block a call deletes. -/
def deletes : Call → Option Bytes
  | .deleteLocalBlock h => some h
  | _ => none

/-- Only one call deletes a block. -/
theorem eq_of_deletes {l : Option Call} {h : Bytes} (hl : l.bind deletes = some h) :
    l = some (.deleteLocalBlock h) := by
  obtain ⟨l, rfl, hl⟩ := Option.bind_eq_some_iff.1 hl
  cases l with
  | deleteLocalBlock h' => rw [Option.some.inj hl]
  | _ => exact nomatch hl

/-- A forced sweep and a request, both about to begin. -/
def beside (s : Site localBlob) (r : S3Request) : Site.Threads Bool localBlob S3Error where
  world := (s.withUser allowAll, ())
  threads
    | true => StorageBackend.byUser allowAll r
    | false => Site.sweepOrphanedBlocks StorageBackend.sample.gc true

/-- After the snapshot: all of the request, and then the sweep, up to the deletion of
its first block. -/
def putThenReap : List (Move Bool Call (Site localBlob) S3Error) :=
  List.replicate 8 (Move.step true) ++ List.replicate 6 (Move.step false)

/-- A site that still holds the block of an object that was deleted. -/
def orphaned : Site localBlob :=
  (bothAfter StorageBackend.sample freshSite
    [.request (.putObject (text "b") (text "k") (some [.ok [97]])),
      .request (.deleteObject (text "b") (text "k"))]).1

/-- Where the run comes to the deletion. -/
def reaping (s : Site localBlob) (r : S3Request) : Site.Threads Bool localBlob S3Error :=
  putThenReap.foldl Conf.advance ((beside s r).advance (.step false))

/-- An orphan, beside another deletion of its key: it is not named when it is deleted. -/
theorem sweep_spares_named_orphan :
    ¬ Named (reaping orphaned (.deleteObject (text "b") (text "k"))).world.1.store blockOfA := by
  refine sweep_spares_named StorageBackend.sample.gc true
    (beside orphaned (.deleteObject (text "b") (text "k"))) false rfl
    (putThenReap ++ [.step false]) ?_ blockOfA ?_
    (reaping orphaned (.deleteObject (text "b") (text "k")), .step false)
    (mem_trace_append_cons _ _ _ _) rfl (eq_of_deletes ?_)
  · simp [putThenReap]
  · decide +kernel
  · decide +kernel

/-- **A block that is named when it is deleted.**  The put stores and names its block
after the snapshot, and succeeds; the sweep, next, deletes the block. -/
theorem named_when_reaped :
    ((reaping freshSite (.putObject (text "b") (text "k") (some [.ok [97]]))).threads true).result =
        some (.ok ()) ∧
      (reaping freshSite (.putObject (text "b") (text "k") (some [.ok [97]]))).nextCall false =
        some (.deleteLocalBlock blockOfA) ∧
      Named (reaping freshSite (.putObject (text "b") (text "k") (some [.ok [97]]))).world.1.store
        blockOfA := by
  refine ⟨rfl, eq_of_deletes ?_, Store.mem_computeLiveBlockSet.1 ?_⟩
  · decide +kernel
  · decide +kernel

end Race
end Shardscape
