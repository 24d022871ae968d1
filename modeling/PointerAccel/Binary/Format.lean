/-!
# IEEE 754 binary formats

A binary interchange format is fixed by the width of its stored fraction and of its
exponent field. This module reads bit patterns of such a format as a sign, an integer
significand and a binary exponent, and packs the round-to-nearest-even image of a
non-negative rational back into bits.

Every conversion the engine performs between integers, decimal text, single and double
precision goes through `BinaryFormat.roundRat`, so there is a single rounding rule to
reason about: pick the binade, round the scaled quotient half-to-even, move a carry into
the next binade, then pack or overflow to infinity.
-/

namespace PointerAccel.Binary

/-- A binary interchange format, given by its stored fraction width and exponent width. -/
structure BinaryFormat where
  /-- Stored fraction bits: 23 for single precision, 52 for double. -/
  fracBits : Nat
  /-- Exponent field bits: 8 for single precision, 11 for double. -/
  expBits : Nat
  deriving Repr, DecidableEq

/-- A bit pattern read as a value: NaN, a signed infinity, or `±mant·2^exp`. -/
inductive Decoded where
  | nan
  | infinite (neg : Bool)
  | finite (neg : Bool) (mant : Nat) (exp : Int)
  deriving Repr, DecidableEq

namespace BinaryFormat

/-- IEEE binary32. -/
def single : BinaryFormat := ⟨23, 8⟩

/-- IEEE binary64. -/
def double : BinaryFormat := ⟨52, 11⟩

/-- The implicit leading bit of a normal significand, `2^fracBits`. -/
def hidden (f : BinaryFormat) : Nat := Nat.pow 2 f.fracBits

/-- The exponent bias, `2^(expBits-1) - 1`. -/
def bias (f : BinaryFormat) : Nat := Nat.pow 2 (f.expBits - 1) - 1

/-- The all-ones exponent field, which marks infinities and NaNs. -/
def topField (f : BinaryFormat) : Nat := Nat.pow 2 f.expBits - 1

/-- Weight of the sign bit. -/
def signBit (f : BinaryFormat) : Nat := Nat.pow 2 (f.fracBits + f.expBits)

/-- Binary exponent of the last significand bit in the lowest binade (subnormals included). -/
def minExp (f : BinaryFormat) : Int := 1 - (f.bias : Int) - f.fracBits

/-- Binary exponent of the last significand bit in the highest finite binade. -/
def maxExp (f : BinaryFormat) : Int := ((f.topField - 1 : Nat) : Int) - f.bias - f.fracBits

/-- Bits of positive infinity. -/
def infBits (f : BinaryFormat) : Nat := f.topField * f.hidden

/-- Read a bit pattern. A zero exponent field is subnormal (no hidden bit, lowest exponent);
the all-ones field is infinity or NaN by whether the fraction is zero. -/
def decode (f : BinaryFormat) (bits : Nat) : Decoded :=
  let neg := decide (f.signBit ≤ bits % (2 * f.signBit))
  let field := bits / f.hidden % Nat.pow 2 f.expBits
  let frac := bits % f.hidden
  if field = f.topField then
    if frac = 0 then .infinite neg else .nan
  else if field = 0 then
    .finite neg frac f.minExp
  else
    .finite neg (frac + f.hidden) ((field : Int) - f.bias - f.fracBits)

/-- Pack a finite value `±m·2^q` whose significand is already in range: `m < 2·hidden`, and
`m ≥ hidden` unless `q = minExp`. Normal and subnormal values share the one formula because
the lowest normal binade and the subnormals have the same exponent. -/
def pack (f : BinaryFormat) (neg : Bool) (m : Nat) (q : Int) : Nat :=
  (if neg then f.signBit else 0) + (q - f.minExp).toNat * f.hidden + m

/-- Round-half-to-even quotient of `num / den`. -/
def divRoundEven (num den : Nat) : Nat :=
  let q := num / den
  let r := num % den
  if den < 2 * r ∨ (2 * r = den ∧ q % 2 = 1) then q + 1 else q

/-- `⌊num / (den·2^q)⌋` for an integer `q` of either sign. -/
def scaledFloor (num den : Nat) (q : Int) : Nat :=
  if 0 ≤ q then num / (den * Nat.pow 2 q.toNat) else num * Nat.pow 2 (-q).toNat / den

/-- `num / (den·2^q)` rounded half to even, for an integer `q` of either sign. -/
def scaledRound (num den : Nat) (q : Int) : Nat :=
  if 0 ≤ q then divRoundEven num (den * Nat.pow 2 q.toNat)
  else divRoundEven (num * Nat.pow 2 (-q).toNat) den

/-- The binade exponent for `num / den`: the `q` with `⌊num/(den·2^q)⌋` in
`[hidden, 2·hidden)`, found from the bit lengths and one correction step. -/
def binadeExp (f : BinaryFormat) (num den : Nat) : Int :=
  let q0 : Int := (Nat.log2 num : Int) - Nat.log2 den - f.fracBits
  if scaledFloor num den q0 < f.hidden then q0 - 1 else q0

/-- Bits of the value nearest to `±num/den` (ties to even), with overflow to infinity and
underflow to a signed zero. A zero numerator gives the signed zero. -/
def roundRat (f : BinaryFormat) (neg : Bool) (num den : Nat) : Nat :=
  if num = 0 then pack f neg 0 f.minExp
  else
    let q := max (binadeExp f num den) f.minExp
    let m := scaledRound num den q
    let carry := decide (m = 2 * f.hidden)
    let m' := if carry then f.hidden else m
    let q' := if carry then q + 1 else q
    if f.maxExp < q' then (if neg then f.signBit else 0) + f.infBits
    else pack f neg m' q'

/-- Bits of the value nearest to the integer `z`. -/
def roundInt (f : BinaryFormat) (z : Int) : Nat :=
  roundRat f (decide (z < 0)) z.natAbs 1

/-- Numerator and denominator of `mant·2^exp`. -/
def ratOf (mant : Nat) (exp : Int) : Nat × Nat :=
  if 0 ≤ exp then (mant * Nat.pow 2 exp.toNat, 1) else (mant, Nat.pow 2 (-exp).toNat)

/-- Bits in format `g` of a value decoded from format `f`: exact when `g` is wider, rounded
to nearest-even when it is narrower. NaN maps to the quiet NaN with the same sign bit. -/
def convert (f g : BinaryFormat) (bits : Nat) : Nat :=
  match decode f bits with
  | .nan =>
    (if f.signBit ≤ bits % (2 * f.signBit) then g.signBit else 0) + g.infBits + g.hidden / 2
  | .infinite neg => (if neg then g.signBit else 0) + g.infBits
  | .finite neg mant exp =>
    let r := ratOf mant exp
    roundRat g neg r.1 r.2

end BinaryFormat

end PointerAccel.Binary
