import PointerAccel.Binary.Format

/-!
# Single and double precision values

The engine computes in `Float32`, whose arithmetic, comparisons and bit casts Lean runs as
IEEE operations. What the hardware cast instructions would otherwise do (integer to float,
float to float, float to integer, rounding to an integer) is written here on the bit view
of `BinaryFormat`, so that each conversion has one exact definition.
-/

namespace PointerAccel.Binary

open BinaryFormat

/-- The bit pattern of a single as a natural number. -/
def bitsOf (x : Float32) : Nat := x.toBits.toNat

/-- The single with the given bit pattern (taken modulo `2^32`). -/
def singleOfBits (n : Nat) : Float32 := Float32.ofBits (UInt32.ofNat n)

/-- The bit pattern of a double as a natural number. -/
def bitsOf64 (x : Float) : Nat := x.toBits.toNat

/-- The double with the given bit pattern (taken modulo `2^64`). -/
def doubleOfBits (n : Nat) : Float := Float.ofBits (UInt64.ofNat n)

/-- A single read as NaN, a signed infinity or `±mant·2^exp`. -/
def decodeSingle (x : Float32) : Decoded := single.decode (bitsOf x)

/-- A double read as NaN, a signed infinity or `±mant·2^exp`. -/
def decodeDouble (x : Float) : Decoded := double.decode (bitsOf64 x)

/-- The single nearest to an integer, ties to even. -/
def singleOfInt (z : Int) : Float32 := singleOfBits (single.roundInt z)

/-- The double nearest to an integer, ties to even. -/
def doubleOfInt (z : Int) : Float := doubleOfBits (double.roundInt z)

/-- Exact widening of a single to a double. -/
def widen (x : Float32) : Float := doubleOfBits (convert single double (bitsOf x))

/-- The single nearest to a double, ties to even, overflowing to infinity. -/
def narrow (x : Float) : Float32 := singleOfBits (convert double single (bitsOf64 x))

/-- Positive infinity in single precision. -/
def singleInf : Float32 := singleOfBits single.infBits

/-- Whether a decoded value is negative, NaN excluded. -/
def Decoded.isNeg : Decoded → Bool
  | .nan => false
  | .infinite neg => neg
  | .finite neg _ _ => neg

/-- The integer part (toward zero) of a decoded finite value; zero for NaN and infinities. -/
def Decoded.truncInt : Decoded → Int
  | .finite neg mant exp =>
    let mag : Nat := if 0 ≤ exp then mant * Nat.pow 2 exp.toNat else mant / Nat.pow 2 (-exp).toNat
    if neg then -(mag : Int) else mag
  | _ => 0

/-- Round to the nearest integer with ties away from zero, keeping the sign of a zero
result. A value with a non-negative exponent is already an integer, and NaN and the
infinities are returned unchanged. -/
def roundAway (x : Float32) : Float32 :=
  match decodeSingle x with
  | .finite neg mant exp =>
    if 0 ≤ exp then x
    else
      let d := Nat.pow 2 (-exp).toNat
      singleOfBits (single.roundRat neg ((2 * mant + d) / (2 * d)) 1)
  | _ => x

/-- The larger operand, where a NaN operand is ignored: `a.max(b)`. On equal operands
(the two zeros included) the first is kept. -/
def maxNum (a b : Float32) : Float32 :=
  if a.isNaN then b else if a < b then b else a

end PointerAccel.Binary
