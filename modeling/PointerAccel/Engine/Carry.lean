import PointerAccel.Engine.Sample
import PointerAccel.Params.Set

/-!
# Carrying sub-unit motion

Scaled motion is rarely a whole number of counts. Each cycle adds the pointer remainder of
the previous cycle, rounds half away from zero and keeps the new remainder, so over a run
of cycles the output stays within one count of the scaled input. The wheel is scaled by
the wheel ratio only: its remainder is recorded but never added back.

A rounded value outside the 32-bit range, or NaN, becomes the sentinel, as a hardware
conversion does; a sentinel in the output marks the cycle as faulted.
-/

namespace PointerAccel

open PointerAccel.Binary

/-- Fractional motion not yet emitted. -/
structure CarryState where
  x : Float32
  y : Float32
  wheel : Float32

/-- No pending fraction. -/
def CarryState.zero : CarryState := ⟨0.0, 0.0, 0.0⟩

/-- The rounded output of a cycle with the remainder it would leave. -/
structure Carried where
  output : RawSample
  remainder : CarryState

/-- Convert a rounded value to a delta: the integer itself inside `[-2^31, 2^31)`, the
sentinel outside it and for NaN. -/
def toOutput (r : Float32) : Int32 :=
  if decide (singleOfInt sentinel ≤ r) && decide (r < singleOfInt (-sentinel)) then
    Int32.ofInt (decodeSingle r).truncInt
  else Int32.ofInt sentinel

/-- Scale merged motion, add the pointer carry and round each axis. -/
def CarryState.apply (c : CarryState) (dx dy dwheel g : Float32) (p : ParamSet) : Carried :=
  let x := dx * g * p.sensitivity + c.x
  let y := dy * g * p.sensitivity + c.y
  let w := dwheel * p.wheelRatio
  let rx := roundAway x
  let ry := roundAway y
  let rw := roundAway w
  ⟨⟨toOutput rx, toOutput ry, toOutput rw⟩, ⟨x - rx, y - ry, w - rw⟩⟩

/-- Whether the rounding produced the sentinel on some axis. -/
def Carried.isFaulted (c : Carried) : Bool := c.output.hasSentinel

end PointerAccel
