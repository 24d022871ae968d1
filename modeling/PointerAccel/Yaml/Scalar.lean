import PointerAccel.Yaml.Node
import PointerAccel.Text.Unexpected
import PointerAccel.Binary.Decimal

/-!
# What a plain scalar stands for

Only plain (unquoted) scalars stand for anything but text. The spellings are:

* null: the empty scalar, `~`, `null`, `Null`, `NULL`;
* booleans: `true`, `True`, `TRUE`, `false`, `False`, `FALSE`;
* integers: decimal digits with an optional sign, or `0x`, `0o`, `0b` digits in base 16, 8
  and 2 (a `-` before the prefix for a negative one). Digits with a leading zero (`017`)
  are text, not a number;
* floats: the decimal float grammar with an optional sign, and `.inf`, `-.inf`, `.nan` in
  three capitalisations. A numeral too large for a double is not a float.

A tag of the core schema (`!!bool`, `!!int`, `!!float`, `!!null`) makes a scalar stand for
a value of that kind and is an error when the text does not spell one.
-/

namespace PointerAccel.Yaml

open PointerAccel.Binary PointerAccel.Binary.BinaryFormat PointerAccel.Text

/-- Whether a scalar spells null (the empty scalar aside). -/
def isNullWord (s : String) : Bool := s == "~" || s == "null" || s == "Null" || s == "NULL"

/-- The boolean a scalar spells, if any. -/
def boolWord? (s : String) : Option Bool :=
  if s == "true" || s == "True" || s == "TRUE" then some true
  else if s == "false" || s == "False" || s == "FALSE" then some false
  else none

/-- The value of a digit in a radix up to 16. -/
def radixDigit (radix : Nat) (ch : Char) : Option Nat :=
  let v := if '0' ≤ ch ∧ ch ≤ '9' then ch.toNat - 48
    else if 'a' ≤ ch ∧ ch ≤ 'z' then ch.toNat - 87
    else if 'A' ≤ ch ∧ ch ≤ 'Z' then ch.toNat - 55
    else 36
  if v < radix then some v else none

/-- A nonempty run of digits in a radix that makes up the whole text. -/
def radixDigits (radix : Nat) : List Char → Nat → Option Nat
  | [], acc => some acc
  | ch :: r, acc => (radixDigit radix ch).bind fun d => radixDigits radix r (radix * acc + d)

/-- An integer in a radix with an optional sign (only `+` when `signed` is false), whose
magnitude is below `2 ^ bits` when nonnegative and at most `2 ^ bits` when negative. -/
def readRadix (radix bits : Nat) (signed : Bool) (cs : List Char) : Option Int :=
  let (neg, ds) := match cs with
    | '+' :: r => (false, r)
    | '-' :: r => (signed, if signed then r else '-' :: r)
    | r => (false, r)
  if ds.isEmpty then none else
  (radixDigits radix ds 0).bind fun n =>
    if neg then (if n ≤ Nat.pow 2 bits then some (-(n : Int)) else none)
    else if n < Nat.pow 2 bits then some n else none

/-- Whether a scalar is digits with a leading zero (after an optional sign), which is text
and not a number. -/
def digitsButNotNumber (s : String) : Bool :=
  let cs := match s.toList with
    | '-' :: r => r
    | '+' :: r => r
    | r => r
  cs.length > 1 && cs.head? == some '0' && cs.tail.all Char.isDigit

/-- The radix prefixes of integers. -/
def radixPrefixes : List (List Char × Nat) := [(['0', 'x'], 16), (['0', 'o'], 8), (['0', 'b'], 2)]

/-- The first prefixed reading of `cs` that succeeds. -/
def prefixed (read : List Char → Nat → Option Int) (cs : List Char) :
    List (List Char × Nat) → Option Int
  | [] => none
  | (p, radix) :: more =>
    match (if cs.take p.length == p then read (cs.drop p.length) radix else none) with
    | some v => some v
    | none => prefixed read cs more

/-- A nonnegative integer below `2 ^ bits`: an optional `+`, then a radix prefix or decimal
digits without a leading zero. -/
def unsignedOf (bits : Nat) (s : String) : Option Nat :=
  let signs (cs : List Char) := cs.head? == some '+' || cs.head? == some '-'
  let cs := s.toList
  let unpos := if cs.head? == some '+' then cs.tail else cs
  if cs.head? == some '+' && signs unpos then none else
  let viaPrefix := prefixed (fun rest radix =>
    if signs rest then none else readRadix radix bits false rest) unpos radixPrefixes
  match viaPrefix with
  | some v => some v.toNat
  | none =>
    if signs unpos || digitsButNotNumber s then none
    else (readRadix 10 bits false unpos).map Int.toNat

/-- A signed integer within `bits` bits plus sign: `-` and a radix prefix, or decimal digits
without a leading zero. -/
def negativeOf (bits : Nat) (s : String) : Option Int :=
  let cs := s.toList
  let viaPrefix := match cs with
    | '-' :: rest => prefixed (fun digits radix => readRadix radix bits true ('-' :: digits))
        rest radixPrefixes
    | _ => none
  match viaPrefix with
  | some v => some v
  | none => if digitsButNotNumber s then none else readRadix 10 bits true cs

/-- The float a scalar spells: `.inf`, `-.inf` and `.nan` spellings, or a decimal numeral
with an optional sign whose value is a finite double. -/
def floatOf (s : String) : Option Float :=
  let cs := s.toList
  let unpos := if cs.head? == some '+' then cs.tail else cs
  if cs.head? == some '+' && (unpos.head? == some '+' || unpos.head? == some '-') then none
  else
    let u := String.ofList unpos
    if u == ".inf" || u == ".Inf" || u == ".INF" then some (doubleOfBits double.infBits)
    else if s == "-.inf" || s == "-.Inf" || s == "-.INF" then
      some (doubleOfBits (double.signBit + double.infBits))
    else if s == ".nan" || s == ".NaN" || s == ".NAN" then
      some (doubleOfBits (double.infBits + double.hidden / 2))
    else match readDouble u with
      | some x => if x.isFinite then some x else none
      | none => none

/-- What an untagged plain scalar stands for. -/
def plainValue (v : String) : Unexpected :=
  if v.isEmpty || isNullWord v then .unit else
  match boolWord? v with
  | some b => .bool b
  | none =>
  match unsignedOf 64 v with
  | some n => .unsigned n
  | none =>
  match negativeOf 63 v with
  | some z => .signed z
  | none =>
  match unsignedOf 128 v with
  | some n => .wide n
  | none =>
  match negativeOf 127 v with
  | some z => .wideSigned z
  | none =>
  match (if digitsButNotNumber v then none else floatOf v) with
  | some x => .float x
  | none => .str v

/-- What a scalar stands for, given how it was written: a core schema tag decides the kind
(and a text that does not spell a value of it is an error, returned as its message), a
local tag or no tag leaves a plain scalar to its spelling, and anything else is text. -/
def scalarValue (v : String) (plain : Bool) (tag : Option String) : Except String Unexpected :=
  let notA (what : String) := Except.error (invalidValueIn plainWording (.str v) what)
  match tag with
  | some t =>
    if t == coreTag "bool" then
      match boolWord? v with
      | some b => .ok (.bool b)
      | none => notA "a boolean"
    else if t == coreTag "int" then
      match unsignedOf 64 v, negativeOf 63 v, unsignedOf 128 v, negativeOf 127 v with
      | some n, _, _, _ => .ok (.unsigned n)
      | none, some z, _, _ => .ok (.signed z)
      | none, none, some n, _ => .ok (.wide n)
      | none, none, none, some z => .ok (.wideSigned z)
      | none, none, none, none => notA "an integer"
    else if t == coreTag "float" then
      match floatOf v with
      | some x => .ok (.float x)
      | none => notA "a float"
    else if t == coreTag "null" then
      if isNullWord v then .ok .unit else notA "null"
    else if t.startsWith "!" && plain then .ok (plainValue v)
    else .ok (.str v)
  | none => .ok (if plain then plainValue v else .str v)

/-- What a node stands for, for an error message about it. -/
def YamlNode.unexpected : YamlNode → Except String Unexpected
  | .scalar v p t _ => scalarValue v p t
  | .seq .. => .ok .seq
  | .map .. => .ok .map

/-- `invalid type: <what the node is>, expected <exp>`, or the node's own error. -/
def YamlNode.wrongType (n : YamlNode) (exp : String) : String :=
  match n.unexpected with
  | .ok u => invalidTypeIn plainWording u exp
  | .error msg => msg

end PointerAccel.Yaml
