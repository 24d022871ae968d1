import PointerAccel.Binary.Single
import PointerAccel.Params.Reload

/-!
# Frame timing

The time since the previous cycle, in milliseconds, as the curve sees it. Gaps shorter than
one millisecond reuse the previous frame time; longer gaps are clamped to one hundred
milliseconds. The nanosecond delta saturates at zero if the clock goes backwards.
-/

namespace PointerAccel

open PointerAccel.Binary

/-- The shortest frame time the timer reports afresh. -/
def minFrameMs : Float32 := 1.0

/-- The longest frame time the timer reports. -/
def maxFrameMs : Float32 := 100.0

/-- The previous timestamp and the frame time reported last. -/
structure FrameTimer where
  lastNs : UInt64
  lastMs : Float32

/-- A timer at time zero with a one-millisecond frame. -/
def FrameTimer.new : FrameTimer := ⟨0, minFrameMs⟩

/-- The frame time at `now`, and the timer after it. -/
def FrameTimer.elapsed (t : FrameTimer) (now : UInt64) : Float32 × FrameTimer :=
  let delta := satSub now t.lastNs
  let ms := narrow (doubleOfInt delta.toNat / 1000000.0)
  if ms < minFrameMs then (t.lastMs, { t with lastNs := now })
  else
    let ms := if ms < maxFrameMs then ms else maxFrameMs
    (ms, ⟨now, ms⟩)

end PointerAccel
