/-
# The cluster clock

`src/clock.rs`: the system time plus a signed offset in milliseconds, which
`refresh_clock_offset` of `main.rs` moves in either direction.
-/

import Mathlib.Algebra.Order.Group.Int
import Mathlib.Algebra.Order.Group.Unbundled.Abs

namespace Shardscape

/-- `ClusterClock`. -/
structure ClusterClock where
  offsetMs : ℤ

namespace ClusterClock

/-- `set_offset`. -/
def setOffset (_ : ClusterClock) (offsetMs : ℤ) : ClusterClock := ⟨offsetMs⟩

/-- `now_micros` at a `SystemTime` reading in microseconds. -/
def nowMicros (c : ClusterClock) (sys : ℤ) : ℤ := sys + c.offsetMs * 1000

/-- `refresh_clock_offset` of `main.rs`: the offset to a peer's time, half the
round trip later, replaces the old one when they differ by more than 10 ms. -/
def refreshOffset (c : ClusterClock) (clusterTimeMicros rttMicros localNowMicros : ℤ) :
    ClusterClock :=
  let offsetMs := (clusterTimeMicros + rttMicros.tdiv 2 - localNowMicros).tdiv 1000
  if |offsetMs - c.offsetMs| > 10 then c.setOffset offsetMs else c

end ClusterClock
end Shardscape
