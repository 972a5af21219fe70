/-
# The sweep

`src/storage.rs`, `sweep_orphaned_blocks`: the blocks this site holds, against the
live set computed from its manifests and parts.  An orphan is marked when it is
first seen, reaped once its grace period is over (or at once when forced), and
unmarked when it is referenced again.

The live set, the local blocks, the marks and the clock are read in four calls
before the loop, and every call inside the loop is one of its own.

Deadlines are `i64` milliseconds, computed from a `u64` of seconds without a check: `Fits`
says that they do not wrap around.
-/

import Shardscape.Backend.Site

namespace Shardscape

open Lib

/-- What `as i64`, and the arithmetic of `i64` in a release build, leave of an integer: the
number of 64 signed bits that differs from it by a multiple of `2 ^ 64`. -/
def wrapI64 (n : ℤ) : ℤ := n.bmod (2 ^ 64)

/-- A number that has 64 signed bits is left as it is. -/
theorem wrapI64_of_fits {n : ℤ} (hlow : -2 ^ 63 ≤ n) (hhigh : n < 2 ^ 63) : wrapI64 n = n := by
  rw [wrapI64, Int.bmod_def]
  omega

/-- The part of `Config` the sweep reads: `storage.gc_grace_period_seconds`, a `u64`. -/
structure GcConfig where
  gcGracePeriodSeconds : ℕ

namespace GcConfig

/-- The grace period that is configured, in milliseconds. -/
def grace (cfg : GcConfig) : ℤ := cfg.gcGracePeriodSeconds * 1000

/-- `grace_ms`: `(gc_grace_period_seconds as i64) * 1000`. -/
def graceMs (cfg : GcConfig) : ℤ := wrapI64 (wrapI64 cfg.gcGracePeriodSeconds * 1000)

/-- `now + grace_ms`: when a block first seen at `now` may be reaped. -/
def deadlineAt (cfg : GcConfig) (now : ℤ) : ℤ := wrapI64 (now + cfg.graceMs)

/-- `SystemTime::now() + Duration::from_secs(gc_grace_period_seconds)`, as the milliseconds
that `add_pending_deletion` writes: `as_millis() as i64`. -/
def notBefore (cfg : GcConfig) (micros : ℕ) : ℤ :=
  wrapI64 ((micros + cfg.gcGracePeriodSeconds * 1000000 : ℕ) / 1000 : ℕ)

/-- The grace period that starts at a reading of the clock ends within the range of `i64`.
Where it does not, the sums above wrap around, and a block may be reaped at once. -/
def Fits (cfg : GcConfig) (micros : ℕ) : Prop :=
  ((micros / 1000 : ℕ) : ℤ) + cfg.grace < 2 ^ 63

instance (cfg : GcConfig) (micros : ℕ) : Decidable (cfg.Fits micros) :=
  inferInstanceAs (Decidable (_ < _))

/-- Wrapping three times is wrapping once. -/
theorem deadlineAt_eq (cfg : GcConfig) (now : ℤ) :
    cfg.deadlineAt now = wrapI64 (now + cfg.grace) := by
  unfold deadlineAt graceMs grace wrapI64
  rw [Int.bmod_mul_bmod, Int.add_bmod_bmod]

/-- The mark that is written at a reading and the deadline that is compared with it agree. -/
theorem notBefore_eq (cfg : GcConfig) (micros : ℕ) :
    cfg.notBefore micros = cfg.deadlineAt (micros / 1000 : ℕ) := by
  have h : (micros + cfg.gcGracePeriodSeconds * 1000000) / 1000 =
      micros / 1000 + cfg.gcGracePeriodSeconds * 1000 := by omega
  rw [deadlineAt_eq, notBefore, h, grace]
  push_cast
  rfl

/-- The grace period is not negative. -/
theorem grace_nonneg (cfg : GcConfig) : 0 ≤ cfg.grace := by
  unfold grace
  omega

/-- **Within the range, a deadline is a grace period from now.** -/
theorem deadlineAt_of_fits {cfg : GcConfig} {micros : ℕ} (h : cfg.Fits micros) :
    cfg.deadlineAt (micros / 1000 : ℕ) = (micros / 1000 : ℕ) + cfg.grace := by
  have hpos := cfg.grace_nonneg
  rw [deadlineAt_eq]
  exact wrapI64_of_fits (by omega) h

/-- The first grace period that does not fit: the sweep that first sees a block may reap it. -/
example : (GcConfig.mk 9223372036854776).deadlineAt 0 < 0 := by decide

end GcConfig

namespace Site

variable {Blob : BlobStore} {ε : Type}

/-- When an orphan may be reaped: at its mark, or, on its first sighting, a grace
period from now, which is recorded. -/
def reapAt (cfg : GcConfig) (pending : Table Bytes ℤ) (now : ℤ) (hash : Bytes) :
    SProg Blob ε ℤ := do
  match pending.lookup hash with
  | some t => pure t
  | none => do
    let micros ← markTime
    addPendingDeletion hash (cfg.notBefore micros)
    pure (cfg.deadlineAt now)

/-- The reaping of one block: its location row, and its bytes if the row was
there. -/
def reapBlock (hash : Bytes) : SProg Blob ε Unit := do
  match ← getLocalBlockFid hash with
  | none => pure ()
  | some fid => do
    match ← deleteLocalBlock hash with
    | true => blobDelete hash fid
    | false => pure ()
  removePendingDeletion hash

/-- One turn of the loop over the local blocks. -/
def sweepBlock (cfg : GcConfig) (force : Bool) (live : List Bytes) (pending : Table Bytes ℤ)
    (now : ℤ) (hash : Bytes) : SProg Blob ε Unit :=
  if hash ∈ live then
    if (pending.lookup hash).isSome then removePendingDeletion hash else pure ()
  else do
    let t ← reapAt cfg pending now hash
    if force = false ∧ now < t then pure () else reapBlock hash

/-- `sweep_orphaned_blocks`. -/
def sweepOrphanedBlocks (cfg : GcConfig) (force : Bool) : SProg Blob ε Unit := do
  let live ← computeLiveBlockSet
  let held ← listLocalBlockHashes
  let pending ← getPendingDeletions
  let micros ← systemTime
  let now : ℤ := (micros / 1000 : ℕ)
  Prog.forEach (sweepBlock cfg force live pending now) held
  Prog.forEach (fun hash => if hash ∈ held then pure () else removePendingDeletion hash)
    pending.keys

end Site
end Shardscape
