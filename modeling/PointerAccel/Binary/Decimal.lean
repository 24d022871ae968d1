import PointerAccel.Binary.Single

/-!
# Reading decimal numerals

A decimal numeral is kept exactly, as an integer significand and a power of ten, and only
then rounded into a binary format by `BinaryFormat.roundRat`. Rounding once from the exact
value is what makes the reader correct; the two guards on the decimal magnitude only skip
computing powers of ten for numerals that certainly overflow or underflow.

The accepted grammar is the one of the standard float reader:

    Literal ::= Sign? ("inf" | "infinity" | "nan" | Number)     (words in any case)
    Number  ::= (Digit+ | Digit+ "." Digit* | Digit* "." Digit+) Exp?
    Exp     ::= ("e" | "E") Sign? Digit+

with no white space, no digit separators and nothing after the numeral.
-/

namespace PointerAccel.Binary

open BinaryFormat

/-- A decimal numeral `±digits·10^exp10`, as written. -/
structure Decimal where
  neg : Bool
  digits : Nat
  exp10 : Int
  deriving Repr, DecidableEq

/-- What a float literal denotes before rounding. -/
inductive Literal where
  | number (d : Decimal)
  | infinity (neg : Bool)
  | nan (neg : Bool)
  deriving Repr, DecidableEq

/-- Number of decimal digits of `n` (one for zero). -/
def decimalLength (n : Nat) : Nat :=
  if n < 10 then 1 else decimalLength (n / 10) + 1
termination_by n
decreasing_by omega

/-- Decimal magnitude above which every numeral overflows the format. -/
def BinaryFormat.overflowDigits (f : BinaryFormat) : Nat := Nat.pow 2 (f.expBits - 1) / 3 + 2

/-- Decimal magnitude below which every numeral rounds to zero in the format. -/
def BinaryFormat.underflowDigits (f : BinaryFormat) : Nat := (f.bias + f.fracBits) / 3 + 2

/-- Bits of the value nearest to the numeral. A numeral `d` lies in
`[10^(k-1), 10^k)` with `k = decimalLength digits + exp10`; when `k` is past either guard the
result is the signed infinity or the signed zero without further arithmetic. -/
def Decimal.roundTo (f : BinaryFormat) (d : Decimal) : Nat :=
  if d.digits = 0 then f.pack d.neg 0 f.minExp
  else
    let k : Int := (decimalLength d.digits : Int) + d.exp10
    if (f.overflowDigits : Int) < k then (if d.neg then f.signBit else 0) + f.infBits
    else if k < -(f.underflowDigits : Int) then f.pack d.neg 0 f.minExp
    else if 0 ≤ d.exp10 then f.roundRat d.neg (d.digits * Nat.pow 10 d.exp10.toNat) 1
    else f.roundRat d.neg d.digits (Nat.pow 10 (-d.exp10).toNat)

/-- Bits of a literal in a format; a NaN is the quiet NaN with the literal's sign. -/
def Literal.roundTo (f : BinaryFormat) : Literal → Nat
  | .number d => d.roundTo f
  | .infinity neg => (if neg then f.signBit else 0) + f.infBits
  | .nan neg => (if neg then f.signBit else 0) + f.infBits + f.hidden / 2

/-- Read a run of ASCII digits, extending `acc` and counting them. -/
def readDigits : List Char → Nat → Nat → Nat × Nat × List Char
  | c :: cs, acc, n =>
    if c.isDigit then readDigits cs (acc * 10 + (c.toNat - '0'.toNat)) (n + 1)
    else (acc, n, c :: cs)
  | [], acc, n => (acc, n, [])

/-- Read an exponent `Sign? Digit+` that must end the input. -/
def readExponent (cs : List Char) : Option Int :=
  let (neg, rest) := match cs with
    | '-' :: r => (true, r)
    | '+' :: r => (false, r)
    | r => (false, r)
  match readDigits rest 0 0 with
  | (v, n, []) => if n = 0 then none else some (if neg then -(v : Int) else v)
  | _ => none

/-- Read the unsigned part of `Number`: the significand and the power of ten it carries. -/
def readNumber (cs : List Char) : Option (Nat × Int) :=
  let (intVal, nInt, r1) := readDigits cs 0 0
  let (val, nFrac, r2) := match r1 with
    | '.' :: r => readDigits r intVal 0
    | _ => (intVal, 0, r1)
  if nInt + nFrac = 0 then none
  else match r2 with
    | [] => some (val, -(nFrac : Int))
    | c :: r =>
      if c = 'e' ∨ c = 'E' then (readExponent r).map fun e => (val, e - nFrac)
      else none

/-- Whether two character lists agree ignoring ASCII case. -/
def sameWordIgnoringCase (a b : List Char) : Bool :=
  a.map Char.toLower == b.map Char.toLower

/-- Read a float literal in the grammar of this module. -/
def readLiteral (s : String) : Option Literal :=
  let cs := s.toList
  let (neg, rest) := match cs with
    | '-' :: r => (true, r)
    | '+' :: r => (false, r)
    | r => (false, r)
  if rest.isEmpty then none
  else match readNumber rest with
    | some (v, e) => some (.number ⟨neg, v, e⟩)
    | none =>
      if sameWordIgnoringCase rest "inf".toList || sameWordIgnoringCase rest "infinity".toList
      then some (.infinity neg)
      else if sameWordIgnoringCase rest "nan".toList then some (.nan neg)
      else none

/-- Read a single-precision value, rounding the exact numeral once. -/
def readSingle (s : String) : Option Float32 :=
  (readLiteral s).map fun l => singleOfBits (l.roundTo single)

/-- Read a double-precision value, rounding the exact numeral once. -/
def readDouble (s : String) : Option Float :=
  (readLiteral s).map fun l => doubleOfBits (l.roundTo double)

/-- The double nearest to a numeral. -/
def Decimal.toDouble (d : Decimal) : Float := doubleOfBits (d.roundTo double)

/-- The single nearest to a numeral. -/
def Decimal.toSingle (d : Decimal) : Float32 := singleOfBits (d.roundTo single)

end PointerAccel.Binary
