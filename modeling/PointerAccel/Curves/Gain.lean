import PointerAccel.Params.Set

/-!
# Gain curves

The motion rate is the pointer speed per millisecond, capped, minus an offset. A rate at
or below zero is returned as the gain itself; a positive rate goes through the curve of the
mode. All arithmetic is single precision, operation by operation, with `exp` and `pow`
taken from the platform's single-precision library.
-/

namespace PointerAccel

/-- Euclidean speed of a displacement, replaced by the cap when a non-zero cap is reached. -/
def speed (dx dy cap : Float32) : Float32 :=
  let raw := Float32.sqrt (dx * dx + dy * dy)
  if cap != 0.0 && decide (cap ≤ raw) then cap else raw

/-- Speed per millisecond minus the offset. -/
def rate (dx dy ms : Float32) (p : ParamSet) : Float32 :=
  speed dx dy p.speedCap / ms - p.offset

/-- The single-precision functions of the platform's math library that the curves call. -/
structure Libm where
  exp : Float32 → Float32
  pow : Float32 → Float32 → Float32

/-- The platform's `expf` and `powf`. -/
def Libm.platform : Libm := ⟨Float32.exp, Float32.pow⟩

/-- The curve of the mode at a rate, with `exp` and `pow` taken from `lib`. -/
def curveWith (lib : Libm) (r : Float32) (p : ParamSet) : Float32 :=
  match p.mode with
  | .linear => r * p.acceleration + 1.0
  | .classic => lib.pow (r * p.acceleration + 1.0) p.exponent
  | .motivity => p.acceleration / (1.0 + lib.exp (p.midpoint - r))
  | .passthrough => r

/-- The curve of the mode at a rate. -/
def applyCurve (r : Float32) (p : ParamSet) : Float32 := curveWith .platform r p

/-- The gain at a rate, with the math library `lib`: the rate itself when it is not positive,
else the curve at the rate. -/
def gainAtWith (lib : Libm) (r : Float32) (p : ParamSet) : Float32 :=
  if r ≤ 0.0 then r else curveWith lib r p

/-- The gain for a displacement over a frame: the rate itself when it is not positive,
else the curve at the rate. -/
def gain (dx dy ms : Float32) (p : ParamSet) : Float32 :=
  let r := rate dx dy ms p
  if r ≤ 0.0 then r else applyCurve r p

end PointerAccel
