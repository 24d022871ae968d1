import PointerAccel.Cli.Grammar
import PointerAccel.Binary.Decimal

/-!
# Option values

The text of an option's value is checked when the option is read, and refused with the
reason the standard readers give:

* a path may be any text but the empty one;
* a float is a decimal float literal (`inf` and `nan` spellings included);
* a count is decimal digits after an optional `+`, below `2 ^ 64`. Digits are read from
  the left, so a count that is already too large is reported as such even if a bad
  character follows.
-/

namespace PointerAccel.Cli

open PointerAccel.Binary

/-- Why a value was refused. -/
inductive ValueProblem where
  /-- The value is empty where one is required. -/
  | missing
  /-- The value does not read; the reason is the reader's message. -/
  | invalid (reason : String)
  deriving DecidableEq

/-- The largest count plus one. -/
def sizeBound : Nat := Nat.pow 2 64

/-- Read decimal digits from the left into a count, stopping at the first bad character or
at the first digit that makes the count too large. -/
def sizeDigits : List Char → Nat → Except ValueProblem Nat
  | [], acc => .ok acc
  | ch :: rest, acc =>
    if ch.isDigit then
      let acc' := 10 * acc + (ch.toNat - '0'.toNat)
      if acc' < sizeBound then sizeDigits rest acc'
      else .error (.invalid "number too large to fit in target type")
    else .error (.invalid "invalid digit found in string")

/-- Read a count: an optional `+` and decimal digits. -/
def readSize (s : String) : Except ValueProblem Nat :=
  match s.toList with
  | [] => .error (.invalid "cannot parse integer from empty string")
  | ['+'] | ['-'] => .error (.invalid "invalid digit found in string")
  | '+' :: rest => sizeDigits rest 0
  | cs => sizeDigits cs 0

/-- Read a single-precision float. -/
def readFloatValue (s : String) : Except ValueProblem Float32 :=
  match readSingle s with
  | some x => .ok x
  | none =>
    .error (.invalid (if s.isEmpty then "cannot parse float from empty string"
      else "invalid float literal"))

/-- Check a value's text for what an option takes. -/
def ValueKind.check (k : ValueKind) (s : String) : Option ValueProblem :=
  match k with
  | .path => if s.isEmpty then some .missing else none
  | .single => match readFloatValue s with
    | .ok _ => none
    | .error p => some p
  | .size => match readSize s with
    | .ok _ => none
    | .error p => some p

end PointerAccel.Cli
