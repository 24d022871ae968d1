import PointerAccel.Curves.Gain
import PointerAccel.Binary.Render

/-!
# Gain tables

A curve sampled at evenly spaced rates, endpoints included. The range must be finite and
increasing and at least two samples are needed. Rates are computed as `from + step·i` in
single precision, so the last rate need not equal `to` exactly.
-/

namespace PointerAccel

open PointerAccel.Binary

/-- Why a table could not be sampled. -/
inductive CurveError where
  | invalidRange (lo hi : Float32)
  | tooFewSteps (steps : Nat)

namespace CurveError

/-- The variant name. -/
def kind : CurveError → String
  | .invalidRange .. => "InvalidRange"
  | .tooFewSteps .. => "TooFewSteps"

/-- The message, floats in their plain form. -/
def message : CurveError → String
  | .invalidRange lo hi => "Invalid rate range [" ++ display lo ++ ", " ++ display hi ++ "]"
  | .tooFewSteps n => "Gain table needs at least 2 steps, got " ++ natText n

end CurveError

/-- One sampled point. -/
structure GainPoint where
  rate : Float32
  gain : Float32

/-- Sample the curve of `p` at `steps` rates from `lo` to `hi`, with `exp` and `pow` taken from
`lib`; each point's gain is the gain at its rate, a non-positive rate being its own gain. -/
def sampleTableWith (lib : Libm) (p : ParamSet) (lo hi : Float32) (steps : Nat) :
    Except CurveError (List GainPoint) :=
  if !lo.isFinite || !hi.isFinite || hi ≤ lo then .error (.invalidRange lo hi)
  else if steps < 2 then .error (.tooFewSteps steps)
  else
    let step := (hi - lo) / singleOfInt (steps - 1)
    .ok ((List.range steps).map fun (i : Nat) =>
      let r := lo + step * singleOfInt (i : Int)
      ⟨r, gainAtWith lib r p⟩)

/-- Sample the curve of `p` at `steps` rates from `lo` to `hi`. -/
def sampleTable (p : ParamSet) (lo hi : Float32) (steps : Nat) :
    Except CurveError (List GainPoint) :=
  sampleTableWith .platform p lo hi steps

/-- The largest gain of a table, NaN gains ignored unless all are NaN; `none` when empty. -/
def maxGain (pts : List GainPoint) : Option Float32 :=
  pts.foldl (fun acc pt => some (match acc with
    | none => pt.gain
    | some m => maxNum m pt.gain)) none

/-- Whether no gain is below the one before it; a NaN gain breaks monotonicity. -/
def isMonotonic : List GainPoint → Bool
  | a :: b :: rest => decide (a.gain ≤ b.gain) && isMonotonic (b :: rest)
  | _ => true

end PointerAccel
