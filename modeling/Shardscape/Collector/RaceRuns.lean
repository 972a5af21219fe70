/-
# What the grace period covers

A request that receives a body and scheduled sweeps, call by call in any order.
In every run in which no sweep with a live set older than the row finds a block of
the request due, once the request has succeeded, the blocks its row names are held
(`put_survives_sweeps`).

The comment in `store_block` asks for less, and it is not enough: there is no grace
period for a block that was an orphan before the request came.  `lostConf` is where
a request of two microseconds ends, beside a sweep that read its live set, its
marks and the clock before it (`row_without_block`).
-/

import Shardscape.Collector.RaceRequest
import Shardscape.Collector.RaceSweep
import Shardscape.Collector.Sweep
import Shardscape.Refinement.Runs

namespace Shardscape
namespace Race

open Lib StorageBackend

variable {Blob : BlobStore}

/-- A configuration of the race. -/
abbrev RaceConf (Blob : BlobStore) := Site.Threads Actor Blob S3Error RaceGhost

/-- The request has not begun, and no sweep is running. -/
def outset (S : StorageBackend) (R : Request) (s : Site Blob) : RaceConf Blob where
  world := (s, {})
  threads
    | .request => S.serve R
    | .sweep => .ret ()

/-- What may be started: scheduled sweeps. -/
def scheduled (S : StorageBackend) (i : Actor) (p : Site.SProg Blob S3Error Unit) : Prop :=
  i = .sweep ∧ p = Site.sweepOrphanedBlocks S.gc false

/-- One move of the race. -/
def move (S : StorageBackend) (c : RaceConf Blob) (m : Move Actor Call (Site Blob) S3Error) :
    RaceConf Blob :=
  c.move (discipline Blob S.gc) m

/-- Once the request has succeeded, and if its row is the one in the table, every
block the row names is held. -/
def RowHeld (S : StorageBackend) (R : Request) (c : RaceConf Blob) : Prop :=
  (c.threads .request).result = some (.ok ()) → RowWritten S R c.world.1.store →
    ∀ h ∈ bodyBlocks S R, c.world.1.store.HoldsLocally h

/-- Where a program of either side ends. -/
def post (S : StorageBackend) (R : Request) (i : Actor) (r : Except S3Error Unit)
    (w : Race Blob) : Prop :=
  match i with
  | .request => Survives S R r w
  | .sweep => True

/-- Sweeps do not undo the end of the request. -/
theorem post_rely {S : StorageBackend} {R : Request} (i : Actor)
    (r : Except S3Error Unit) (w w' : Race Blob) (hw : (discipline Blob S.gc).rely i w w')
    (h : post S R i r w) : post S R i r w' := by
  cases i with
  | sweep => trivial
  | request =>
    have hw : SweepStep w w' := hw
    intro hr hrow b hb
    have hsame : rowBlocks w'.1.store R = rowBlocks w.1.store R := by
      unfold rowBlocks
      rw [hw.objects, hw.parts]
    exact hw.kept b (h hr (hsame.symm.trans hrow) b hb)

/-- A sound configuration holds what the finished request has named. -/
theorem rowHeld_of_sound {S : StorageBackend} {R : Request} {c : RaceConf Blob}
    (h : Conf.Sound (discipline Blob S.gc) (post S R) c) : RowHeld S R c :=
  fun hr hrow b hb => ((h.2 .request).of_result hr rfl hrow b hb).held

/-- **A request survives the sweeps** whose calls meet the condition: wherever the
run passes and where it ends, if the request has succeeded, every block its row
names is held.  The clock does not go back, and the grace period is positive and
ends within the range of `i64`. -/
theorem put_survives_sweeps (S : StorageBackend) (R : Request) (hR : HasBody R)
    (s : Site Blob) (hmono : Monotone s.oracle.micros) (hgrace : 0 < S.gc.gcGracePeriodSeconds)
    (hfits : ∀ n, S.gc.Fits (s.oracle.micros n)) (ms : List (Move Actor Call (Site Blob) S3Error))
    (hstart : ∀ m ∈ ms, m.Starts (scheduled S))
    (hmeets : ∀ p ∈ trace (move S) (outset S R s) ms, p.1.Meets (discipline Blob S.gc) p.2) :
    (∀ p ∈ trace (move S) (outset S R s) ms, RowHeld S R p.1) ∧
      RowHeld S R (ms.foldl (move S) (outset S R s)) := by
  have hinit : Conf.Sound (discipline Blob S.gc) (post S R) (outset S R s) := by
    refine ⟨⟨hmono, hfits, fun _ hnow => nomatch hnow⟩, fun i => ?_⟩
    cases i with
    | request => exact safe_serve hR rfl
    | sweep => trivial
  obtain ⟨hpass, hend⟩ := Conf.sound_run (scheduled S) post_rely
    (fun i p w hp _ => by
      obtain ⟨rfl, rfl⟩ := hp
      exact safe_sweepOrphanedBlocks hgrace w) hinit hstart hmeets
  exact ⟨fun p hp => rowHeld_of_sound (hpass p hp), rowHeld_of_sound hend⟩

/-! ### Two runs -/

instance (cfg : GcConfig) (i : Actor) (l : Call) (w : Race Blob) :
    Decidable ((discipline Blob cfg).cond i l w) :=
  inferInstanceAs (Decidable (Cond i l w))

/-- The body `a` comes in. -/
def putA : Request := .putObject (text "bucket") (text "k") (some [.ok [97]])

/-- The moves of a sweep and a request: the sweep reads, the request runs, and the
sweep goes on. -/
def overtaken (read request rest : ℕ) : List (Move Actor Call (Site localBlob) S3Error) :=
  .spawn .sweep (Site.sweepOrphanedBlocks sample.gc false) ::
    (List.replicate read (Move.step .sweep) ++ List.replicate request (Move.step .request) ++
      List.replicate rest (Move.step .sweep))

/-- The run starts one request and one sweep. -/
theorem starts_overtaken (read request rest : ℕ) :
    ∀ m ∈ overtaken read request rest, m.Starts (scheduled sample) := by
  intro m hm
  rcases List.mem_cons.1 hm with rfl | hm
  · exact ⟨rfl, rfl⟩
  · rcases List.mem_append.1 hm with hm | hm
    · rcases List.mem_append.1 hm with hm | hm <;>
        · obtain rfl := List.eq_of_mem_replicate hm
          trivial
    · obtain rfl := List.eq_of_mem_replicate hm
      trivial

/-- Where such a run ends. -/
def overtakenFrom (s : Site localBlob) (read request rest : ℕ) : RaceConf localBlob :=
  (overtaken read request rest).foldl (move sample)
    (outset sample putA s)

/-- A clock that has paused, and goes on in steps of a microsecond for a while. -/
def pausing (pause n : ℕ) : ℕ := pause + min n 100

/-- The clock of the run does not go back. -/
theorem monotone_pausing (pause : ℕ) : Monotone (pausing pause) := by
  intro m n h
  unfold pausing
  omega

/-- A site at which a body was put, deleted and marked by a sweep, some time later. -/
def orphanAfter (pause : ℕ) : Site localBlob :=
  { (bothAfter sample freshSite
      [.request putA, .request (.deleteObject (text "bucket") (text "k")), .sweep false]).1 with
    oracle := { freshSite.oracle with micros := pausing pause } }

/-- A body whose block has been an orphan for a hundred seconds, and is marked for two
hundred more.  The sweep takes its live set, lists the block, reads its mark and the clock;
the whole request runs; and the sweep, to which the block is an orphan, spares it. -/
theorem put_survives_sweeps_marked :
    (orphanAfter 100000000).store.Orphan blockOfA ∧
      (orphanAfter 100000000).store.pendingDeletions.lookup blockOfA = some 300000 ∧
      ((overtakenFrom (orphanAfter 100000000) 4 4 4).threads .sweep).result = some (.ok ()) ∧
      (overtakenFrom (orphanAfter 100000000) 4 4 4).world.1.store.HoldsLocally blockOfA := by
  refine ⟨by decide +kernel, by decide +kernel, rfl, (put_survives_sweeps sample putA
    trivial (orphanAfter 100000000) (monotone_pausing _) (by decide) (fun n => ?_)
    (overtaken 4 4 4) (starts_overtaken 4 4 4) ?_).2 rfl ?_ blockOfA ?_⟩
  · show sample.gc.Fits (pausing 100000000 n)
    have hle : pausing 100000000 n ≤ 100000100 := by
      unfold pausing
      omega
    have hgrace : sample.gc.grace = 300000 := rfl
    unfold GcConfig.Fits
    omega
  · decide +kernel
  · show rowBlocks _ putA = some _
    decide +kernel
  · decide +kernel

/-- The sweep reads everything it reads before its loop, the whole request runs, the
sweep goes through its loop. -/
def lostConf : RaceConf localBlob := overtakenFrom (orphanAfter 600000000) 4 4 4

/-- **A row without its block.**  The block is held when the request looks it up, as
an orphan whose mark ran out five minutes ago.  The request takes two microseconds and succeeds,
its row is there, and the sweep, which has decided before, reaps the block. -/
theorem row_without_block :
    (∀ m ∈ overtaken 4 4 4, m.Starts (scheduled sample)) ∧
      (lostConf.threads .request).result = some (.ok ()) ∧
      (lostConf.threads .sweep).result = some (.ok ()) ∧
      (∃ n, lostConf.world.2.start = some n ∧
        pausing 600000000 lostConf.world.1.tick = pausing 600000000 n + 2) ∧
      RowWritten sample putA lostConf.world.1.store ∧
      blockOfA ∈ bodyBlocks sample putA ∧
      ¬ lostConf.world.1.store.HoldsLocally blockOfA := by
  refine ⟨starts_overtaken 4 4 4, rfl, rfl, ⟨8, ?_⟩, ?_, ?_, ?_⟩
  · decide +kernel
  · show rowBlocks _ putA = some _
    decide +kernel
  · decide +kernel
  · decide +kernel

end Race
end Shardscape
