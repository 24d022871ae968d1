/-!
# Parameter names

The eight tunable floats, in their fixed order. The order is observable: it is the order of
validation, of the string surface, of the rejected list after a reload and of the printed
parameter table.
-/

namespace PointerAccel

/-- A tunable float parameter. -/
inductive ParamName where
  | speedCap
  | sensitivity
  | acceleration
  | sensitivityCap
  | offset
  | exponent
  | midpoint
  | scrollsPerTick
  deriving Repr, DecidableEq, Inhabited

namespace ParamName

/-- All parameters in their fixed order. -/
def all : List ParamName :=
  [.speedCap, .sensitivity, .acceleration, .sensitivityCap, .offset, .exponent, .midpoint,
    .scrollsPerTick]

/-- Position of a parameter in `all`. -/
def index : ParamName → Nat
  | .speedCap => 0
  | .sensitivity => 1
  | .acceleration => 2
  | .sensitivityCap => 3
  | .offset => 4
  | .exponent => 5
  | .midpoint => 6
  | .scrollsPerTick => 7

/-- The external key of a parameter. -/
def key : ParamName → String
  | .speedCap => "SpeedCap"
  | .sensitivity => "Sensitivity"
  | .acceleration => "Acceleration"
  | .sensitivityCap => "SensitivityCap"
  | .offset => "Offset"
  | .exponent => "Exponent"
  | .midpoint => "Midpoint"
  | .scrollsPerTick => "ScrollsPerTick"

/-- The one-line description of a parameter. -/
def description : ParamName → String
  | .speedCap => "Limit the maximum pointer speed before applying acceleration."
  | .sensitivity => "Mouse base sensitivity."
  | .acceleration => "Mouse acceleration sensitivity."
  | .sensitivityCap => "Cap maximum sensitivity."
  | .offset => "Rate offset below which no acceleration is applied."
  | .exponent => "Exponent for algorithms that use it."
  | .midpoint => "Midpoint for sigmoid function."
  | .scrollsPerTick => "Amount of lines to scroll per scroll-wheel tick."

/-- The parameter with the given key, matched exactly. -/
def ofKey? (k : String) : Option ParamName :=
  all.find? fun n => n.key == k

end ParamName

end PointerAccel
