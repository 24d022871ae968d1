import PointerAccel.Params.Mode
import PointerAccel.Params.Name

/-!
# Parameter sets

The live configuration of the engine: eight single-precision floats and a mode. Fields are
read and written by `ParamName`, which is how the surface, validation and the printers walk
them in order.
-/

namespace PointerAccel

/-- A full parameter set. -/
structure ParamSet where
  speedCap : Float32
  sensitivity : Float32
  acceleration : Float32
  sensitivityCap : Float32
  offset : Float32
  exponent : Float32
  midpoint : Float32
  scrollsPerTick : Float32
  mode : AccelMode

namespace ParamSet

/-- The compiled-in defaults. -/
def default : ParamSet where
  speedCap := 0.0
  sensitivity := 1.0
  acceleration := 0.04
  sensitivityCap := 2.2
  offset := 0.0
  exponent := 0.0
  midpoint := 1.0
  scrollsPerTick := 3.0
  mode := .linear

instance : Inhabited ParamSet := ⟨default⟩

/-- Scrolls per tick that count as a wheel ratio of one. -/
def referenceScrollsPerTick : Float32 := 3.0

/-- Read one float field. -/
def get (p : ParamSet) : ParamName → Float32
  | .speedCap => p.speedCap
  | .sensitivity => p.sensitivity
  | .acceleration => p.acceleration
  | .sensitivityCap => p.sensitivityCap
  | .offset => p.offset
  | .exponent => p.exponent
  | .midpoint => p.midpoint
  | .scrollsPerTick => p.scrollsPerTick

/-- Write one float field. -/
def set (p : ParamSet) (n : ParamName) (v : Float32) : ParamSet :=
  match n with
  | .speedCap => { p with speedCap := v }
  | .sensitivity => { p with sensitivity := v }
  | .acceleration => { p with acceleration := v }
  | .sensitivityCap => { p with sensitivityCap := v }
  | .offset => { p with offset := v }
  | .exponent => { p with exponent := v }
  | .midpoint => { p with midpoint := v }
  | .scrollsPerTick => { p with scrollsPerTick := v }

@[simp] theorem get_set_self (p : ParamSet) (n : ParamName) (v : Float32) :
    (p.set n v).get n = v := by
  cases n <;> rfl

theorem get_set_of_ne (p : ParamSet) {n m : ParamName} (v : Float32) (h : m ≠ n) :
    (p.set n v).get m = p.get m := by
  cases n <;> cases m <;> simp_all [set, get]

@[simp] theorem get_with_mode (p : ParamSet) (mode : AccelMode) (n : ParamName) :
    ({ p with mode := mode } : ParamSet).get n = p.get n := by
  cases n <;> rfl

/-- Wheel lines per tick relative to the reference of three. -/
def wheelRatio (p : ParamSet) : Float32 := p.scrollsPerTick / referenceScrollsPerTick

end ParamSet

end PointerAccel
