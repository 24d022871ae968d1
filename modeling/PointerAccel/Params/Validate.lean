import PointerAccel.Params.Set
import PointerAccel.Binary.Render

/-!
# Validating a parameter set

A set read from a file is accepted only if every float is finite, both caps are
non-negative and the wheel scale lies in `[0, 100]`. The checks run in that order and the
first failure is reported, so the error names the earliest offending field.
-/

namespace PointerAccel

open PointerAccel.Binary

/-- Why a parameter set was refused. -/
inductive ValidationError where
  | nonFinite (field : ParamName)
  | negative (field : ParamName) (value : Float32)
  | outOfRange (field : ParamName) (value lo hi : Float32)

namespace ValidationError

/-- The variant name of a validation error. -/
def kind : ValidationError → String
  | .nonFinite .. => "NonFinite"
  | .negative .. => "Negative"
  | .outOfRange .. => "OutOfRange"

/-- The message of a validation error; floats are written in their plain form. -/
def message : ValidationError → String
  | .nonFinite f => f.key ++ " must be finite"
  | .negative f v => f.key ++ " must be >= 0, got " ++ display v
  | .outOfRange f v lo hi =>
    f.key ++ " value " ++ display v ++ " is out of range [" ++ display lo ++ ", " ++
      display hi ++ "]"

end ValidationError

/-- Upper bound of the wheel scale. -/
def maxScrollsPerTick : Float32 := 100.0

/-- The fields whose value must not be negative, in checking order. -/
def capFields : List ParamName := [.speedCap, .sensitivityCap]

/-- Check a parameter set: finiteness in field order, then the caps, then the wheel scale.
A negative zero passes the cap check, since it is not below zero. -/
def ParamSet.validate (p : ParamSet) : Except ValidationError Unit :=
  match ParamName.all.find? (fun n => !(p.get n).isFinite) with
  | some n => .error (.nonFinite n)
  | none =>
    match capFields.find? (fun n => decide (p.get n < 0.0)) with
    | some n => .error (.negative n (p.get n))
    | none =>
      if decide (0.0 ≤ p.scrollsPerTick) && decide (p.scrollsPerTick ≤ maxScrollsPerTick) then
        .ok ()
      else .error (.outOfRange .scrollsPerTick p.scrollsPerTick 0.0 maxScrollsPerTick)

end PointerAccel
