/-!
# Acceleration modes

The curve family the engine applies. A mode travels as a byte code; every code other than
1, 2 and 3 selects the passthrough curve, so decoding a code never fails.
-/

namespace PointerAccel

/-- The curve family: gain equal to the rate, linear, power-law, or sigmoid. -/
inductive AccelMode where
  | passthrough
  | linear
  | classic
  | motivity
  deriving Repr, DecidableEq, Inhabited

namespace AccelMode

/-- Decode a byte code: 1, 2 and 3 are linear, classic and motivity, anything else passthrough. -/
def ofCode (code : UInt8) : AccelMode :=
  match code.toNat with
  | 1 => .linear
  | 2 => .classic
  | 3 => .motivity
  | _ => .passthrough

/-- The byte code of a mode. -/
def code : AccelMode → UInt8
  | .passthrough => 0
  | .linear => 1
  | .classic => 2
  | .motivity => 3

/-- The lowercase name of a mode, also its display text. -/
def name : AccelMode → String
  | .passthrough => "passthrough"
  | .linear => "linear"
  | .classic => "classic"
  | .motivity => "motivity"

end AccelMode

end PointerAccel
