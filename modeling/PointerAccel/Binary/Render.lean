import PointerAccel.Binary.Shortest

/-!
# Writing floats as text

Three layouts are produced from the same digit selection:

* `display`: the plain form, shortest digits and never an exponent (`0.0000001`,
  `340282350000000000000000000000000000000`, `-0`, `NaN`, `inf`);
* `fixed`: a fixed number `N` of decimals, the exact binary value rounded half to even at `N` places;
* `jsonNumber`: the form a JSON writer uses for a finite float, positional inside a
  window of decimal magnitudes and `d.ddde±x` outside it, always with a `.` or an exponent
  so that it reads back as a float.
-/

namespace PointerAccel.Binary

open BinaryFormat

/-- Decimal digits of a natural number, most significant first. -/
def digitChars (n : Nat) : List Char :=
  if n < 10 then [Char.ofNat (n + 48)] else digitChars (n / 10) ++ [Char.ofNat (n % 10 + 48)]
termination_by n
decreasing_by omega

/-- A natural number in decimal. -/
def natText (n : Nat) : String := String.ofList (digitChars n)

/-- An integer in decimal, with a leading `-` when negative. -/
def intText (z : Int) : String :=
  if z < 0 then "-" ++ natText z.natAbs else natText z.natAbs

/-- `n` copies of `'0'`. -/
def zeros (n : Nat) : String := String.ofList (List.replicate n '0')

/-- Shortest digits of a decoded finite nonzero value, as a digit string and the position of
the decimal point relative to its start: the value is `0.ds × 10^point`. -/
def pointDigits (f : BinaryFormat) (mant : Nat) (exp : Int) : List Char × Int :=
  let d := shortest f mant exp
  let ds := digitChars d.sig
  (ds, (ds.length : Int) + d.exp10)

/-- Lay out `0.ds × 10^point` without an exponent and without a trailing `.0`. -/
def positional (ds : List Char) (point : Int) : String :=
  if point ≤ 0 then "0." ++ zeros (-point).toNat ++ String.ofList ds
  else if point < ds.length then
    String.ofList (ds.take point.toNat) ++ "." ++ String.ofList (ds.drop point.toNat)
  else String.ofList ds ++ zeros (point.toNat - ds.length)

/-- The plain text of a value decoded in format `f`. -/
def displayDecoded (f : BinaryFormat) : Decoded → String
  | .nan => "NaN"
  | .infinite neg => if neg then "-inf" else "inf"
  | .finite neg mant exp =>
    let body := if mant = 0 then "0" else
      let (ds, point) := pointDigits f mant exp
      positional ds point
    if neg then "-" ++ body else body

/-- The plain text of a single. -/
def display (x : Float32) : String := displayDecoded single (decodeSingle x)

/-- The plain text of a double. -/
def displayDouble (x : Float) : String := displayDecoded double (decodeDouble x)

/-- A decoded value with `prec` decimals: the exact value times `10^prec`,
rounded half to even, with the point put back. -/
def fixedDecoded (prec : Nat) : Decoded → String
  | .nan => "NaN"
  | .infinite neg => if neg then "-inf" else "inf"
  | .finite neg mant exp =>
    let r := ratOf mant exp
    let scaled := divRoundEven (r.1 * Nat.pow 10 prec) r.2
    let ds := digitChars scaled
    let ds := List.replicate (prec + 1 - ds.length) '0' ++ ds
    let intPart := ds.take (ds.length - prec)
    let fracPart := ds.drop (ds.length - prec)
    let body := if prec = 0 then String.ofList intPart
      else String.ofList intPart ++ "." ++ String.ofList fracPart
    if neg then "-" ++ body else body

/-- A single written with `prec` digits after the point, the exact value rounded half to even. -/
def fixed (prec : Nat) (x : Float32) : String := fixedDecoded prec (decodeSingle x)

/-- The exponent of a JSON float: a sign always, then the digits. -/
def exponentText (e : Int) : String :=
  if e < 0 then "-" ++ natText e.natAbs else "+" ++ natText e.natAbs

/-- The widest decimal magnitude written positionally by the JSON layout of a format. -/
def BinaryFormat.jsonMaxPoint (f : BinaryFormat) : Int := if f.fracBits ≤ 23 then 13 else 16

/-- Positions of the point at or below which the JSON layout switches to an exponent. -/
def BinaryFormat.jsonMinPoint (f : BinaryFormat) : Int := if f.fracBits ≤ 23 then -6 else -5

/-- The JSON text of a finite value decoded in format `f`, `none` for NaN and infinities.
Integers keep a `.0`; magnitudes outside the positional window get an exponent. -/
def jsonDecoded (f : BinaryFormat) : Decoded → Option String
  | .finite neg mant exp =>
    let body :=
      if mant = 0 then "0.0" else
      let (ds, point) := pointDigits f mant exp
      let len : Int := ds.length
      if len ≤ point ∧ point ≤ f.jsonMaxPoint then
        String.ofList ds ++ zeros (point - len).toNat ++ ".0"
      else if 0 < point ∧ point ≤ f.jsonMaxPoint then positional ds point
      else if f.jsonMinPoint < point ∧ point ≤ 0 then positional ds point
      else match ds with
        | [c] => String.ofList [c] ++ "e" ++ exponentText (point - 1)
        | c :: rest => String.ofList [c] ++ "." ++ String.ofList rest ++ "e" ++ exponentText (point - 1)
        | [] => "0.0"
    some (if neg then "-" ++ body else body)
  | _ => none

/-- The JSON text of a single, `none` when it is not finite. -/
def jsonSingle (x : Float32) : Option String := jsonDecoded single (decodeSingle x)

/-- The JSON text of a double, `none` when it is not finite. -/
def jsonDouble (x : Float) : Option String := jsonDecoded double (decodeDouble x)

end PointerAccel.Binary
