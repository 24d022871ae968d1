import PointerAccel.Binary.Render

/-!
# Naming a value that did not fit

When a reader meets a value of the wrong kind it names what it found: a boolean, an integer
and its digits, a string in quotes, a sequence. Readers of different formats agree on these
words except for two: how the empty value is called and how a float is written. A
`Wording` holds those two choices, so that each format states its own.
-/

namespace PointerAccel.Text

open PointerAccel.Binary

/-- What a value turned out to be, for an error message about it. -/
inductive Unexpected where
  | bool (b : Bool)
  | unsigned (n : Nat)
  | signed (z : Int)
  | wide (n : Nat)
  | wideSigned (z : Int)
  | float (x : Float)
  | str (s : String)
  | unit
  | seq
  | map

/-- The debug escape of a character inside a quoted string. -/
def debugEscape (c : Char) : String :=
  let n := c.toNat
  if c = '"' then "\\\"" else if c = '\\' then "\\\\"
  else if c = '\n' then "\\n" else if c = '\r' then "\\r" else if c = '\t' then "\\t"
  else if n = 0 then "\\0"
  else if n < 0x20 ∨ (0x7F ≤ n ∧ n < 0xA0) ∨ n = 0xAD ∨ (0x200B ≤ n ∧ n ≤ 0x200F) ∨
      (0x2028 ≤ n ∧ n ≤ 0x202E) ∨ (0x2060 ≤ n ∧ n ≤ 0x2064) ∨ n = 0xFEFF then
    "\\u\x7b" ++ String.ofList ((Nat.toDigits 16 n)) ++ "\x7d"
  else String.singleton c

/-- A string in debug form: quoted, with quotes, backslashes and invisible characters
escaped. -/
def debugQuote (s : String) : String :=
  "\"" ++ String.join (s.toList.map debugEscape) ++ "\""

/-- The two words on which formats differ: the name of the empty value and the text of a
float. -/
structure Wording where
  unit : String
  float : Float → String

/-- A float in plain decimal, with `.0` added when the text has no point (non-finite values
as they are). -/
def pointedDouble (x : Float) : String :=
  let s := displayDouble x
  if x.isFinite && !s.toList.contains '.' then s ++ ".0" else s

/-- The general wording: the empty value is a `unit value`, a float is written in plain
decimal with a point. -/
def plainWording : Wording := ⟨"unit value", pointedDouble⟩

/-- How an unexpected value is named. -/
def Unexpected.describe (w : Wording) : Unexpected → String
  | .bool b => "boolean `" ++ (if b then "true" else "false") ++ "`"
  | .unsigned n => "integer `" ++ natText n ++ "`"
  | .signed z => "integer `" ++ intText z ++ "`"
  | .wide n => "integer `" ++ natText n ++ "` as u128"
  | .wideSigned z => "integer `" ++ intText z ++ "` as i128"
  | .float x => "floating point `" ++ w.float x ++ "`"
  | .str s => "string " ++ debugQuote s
  | .unit => w.unit
  | .seq => "sequence"
  | .map => "map"

/-- `invalid type: <what>, expected <exp>`. -/
def invalidTypeIn (w : Wording) (u : Unexpected) (exp : String) : String :=
  "invalid type: " ++ u.describe w ++ ", expected " ++ exp

/-- `invalid value: <what>, expected <exp>`. -/
def invalidValueIn (w : Wording) (u : Unexpected) (exp : String) : String :=
  "invalid value: " ++ u.describe w ++ ", expected " ++ exp

/-- The error a derived struct reader raises on a repeated key. -/
def duplicateField (key : String) : String := "duplicate field `" ++ key ++ "`"

end PointerAccel.Text
