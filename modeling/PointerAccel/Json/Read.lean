import PointerAccel.Json.Lex
import PointerAccel.Json.Value
import PointerAccel.Text.Unexpected

/-!
# Reading JSON values and records

Three kinds of reader are built on the token readers:

* `readValue`, which reads any value into a `JsonValue` (objects sorted by key, a repeated
  key keeping its last value) and refuses containers nested 128 deep;
* `skipValue`, which checks and skips a value whose content is not wanted;
* typed readers for numbers, booleans, string maps and records, which report a value of
  the wrong shape as `invalid type: …, expected …` and an out-of-range integer as
  `invalid value: …, expected …`, placed after the offending token.

A record (a JSON object with known field names, or an array of its fields in order) is
described by a `RecordSpec`: its fields, how to read each one into a state, and how to
finish the state once the members are exhausted.
-/

namespace PointerAccel.Json

open PointerAccel.Binary PointerAccel.Text Reader

/-- Initial nesting budget; a container that exhausts it is refused. -/
def nestingLimit : Nat := 128

/-- A number as a JSON value. -/
def Num.toValue : Num → JsonValue
  | .unsigned n => .nat n
  | .negative z => .int z
  | .double x => .double x

/-- How the JSON reader words a value that did not fit: the empty value is `null`, a float
is written as the JSON writer writes it. -/
def jsonWording : Wording := ⟨"null", fun x => (jsonDouble x).getD (displayDouble x)⟩

/-- A number as an unexpected value. -/
def Num.unexpected : Num → Unexpected
  | .unsigned n => .unsigned n
  | .negative z => .signed z
  | .double x => .float x

/-- `invalid type: <what>, expected <exp>`, in JSON wording. -/
def invalidType (u : Unexpected) (exp : String) : String := invalidTypeIn jsonWording u exp

/-- `invalid value: <what>, expected <exp>`, in JSON wording. -/
def invalidValue (u : Unexpected) (exp : String) : String := invalidValueIn jsonWording u exp

/-- Fail with a message, or succeed, placing nothing yet. -/
def ofExcept : Except String α → Reader α
  | .ok a => pure a
  | .error m => custom m

/-- Report a value of the wrong type at the cursor. Scalars are read (and must be well
formed) so that the error is placed after them; containers are not entered. -/
def invalidTypeHere (exp : String) (fuel : Nat) : Reader α := placed do
  match ← peek with
  | some 'n' => do bump; readIdent ['u', 'l', 'l']; custom (invalidType .unit exp)
  | some 't' => do bump; readIdent ['r', 'u', 'e']; custom (invalidType (.bool true) exp)
  | some 'f' => do bump; readIdent ['a', 'l', 's', 'e']; custom (invalidType (.bool false) exp)
  | some '-' => do bump; let n ← readNumber false fuel; custom (invalidType n.unexpected exp)
  | some '"' => do bump; let s ← readString fuel; custom (invalidType (.str s) exp)
  | some '[' => custom (invalidType .seq exp)
  | some '{' => custom (invalidType .map exp)
  | some c =>
    if c.isDigit then do
      let n ← readNumber true fuel
      custom (invalidType n.unexpected exp)
    else peekErr .expectedSomeValue
  | none => peekErr .expectedSomeValue

/-- Read a number and interpret it; anything else is a type error naming `exp`. -/
def readNumberAs (exp : String) (visit : Num → Except String α) (fuel : Nat) : Reader α :=
  placed do
    match ← peekAfterSpace with
    | none => peekErr .eofWhileParsingValue
    | some '-' => do bump; let n ← readNumber false fuel; ofExcept (visit n)
    | some c =>
      if c.isDigit then do let n ← readNumber true fuel; ofExcept (visit n)
      else invalidTypeHere exp fuel

/-- A single from any number: integers are rounded directly, doubles narrowed. -/
def readSingleValue (fuel : Nat) : Reader Float32 :=
  readNumberAs "f32" (fun
    | .unsigned n => .ok (singleOfInt n)
    | .negative z => .ok (singleOfInt z)
    | .double x => .ok (narrow x)) fuel

/-- An unsigned integer below `2^bits`, named `exp` in errors. -/
def readUnsignedValue (bits : Nat) (exp : String) (fuel : Nat) : Reader Nat :=
  readNumberAs exp (fun
    | .unsigned n => if n < Nat.pow 2 bits then .ok n else .error (invalidValue (.unsigned n) exp)
    | .negative z => .error (invalidValue (.signed z) exp)
    | .double x => .error (invalidType (.float x) exp)) fuel

/-- A signed 32-bit integer. -/
def readI32Value (fuel : Nat) : Reader Int :=
  readNumberAs "i32" (fun
    | .unsigned n => if n < Nat.pow 2 31 then .ok n else .error (invalidValue (.unsigned n) "i32")
    | .negative z => if -(Nat.pow 2 31 : Int) ≤ z then .ok z else .error (invalidValue (.signed z) "i32")
    | .double x => .error (invalidType (.float x) "i32")) fuel

/-- A boolean. -/
def readBoolValue (fuel : Nat) : Reader Bool := placed do
  match ← peekAfterSpace with
  | none => peekErr .eofWhileParsingValue
  | some 't' => do bump; readIdent ['r', 'u', 'e']; pure true
  | some 'f' => do bump; readIdent ['a', 'l', 's', 'e']; pure false
  | some _ => invalidTypeHere "a boolean" fuel

/-- The check after an array's contents: `]`, else the reason it is missing. -/
def closeArray : Reader Unit := do
  match ← peekAfterSpace with
  | some ']' => bump
  | some ',' => do
    bump
    match ← peekAfterSpace with
    | some ']' => peekErr .trailingComma
    | _ => peekErr .trailingCharacters
  | some _ => peekErr .expectedListCommaOrEnd
  | none => peekErr .eofWhileParsingList

/-- The check after an object's contents: `}`, else the reason it is missing. -/
def closeObject : Reader Unit := do
  match ← peekAfterSpace with
  | some '}' => bump
  | some ',' => peekErr .trailingComma
  | some _ => peekErr .trailingCharacters
  | none => peekErr .eofWhileParsingObject

/-- The colon between a key and its value. -/
def readColon : Reader Unit := do
  match ← peekAfterSpace with
  | some ':' => bump
  | some _ => peekErr .expectedColon
  | none => peekErr .eofWhileParsingObject

/-- Step to the next array element: `none` at `]` (not consumed), `some ()` when an element
starts at the cursor. `first` tells whether a comma is still expected. -/
def nextElement (first : Bool) : Reader (Option Unit) := do
  let start ← do
    match ← peekAfterSpace with
    | some ']' => pure none
    | some ',' =>
      if first then pure (some ',') else do bump; peekAfterSpace
    | some c => if first then pure (some c) else peekErr .expectedListCommaOrEnd
    | none => peekErr .eofWhileParsingList
  match start with
  | none => pure none
  | some ']' => peekErr .trailingComma
  | some _ => pure (some ())

/-- Step to the next object key: `none` at `}` (not consumed), else the key, read through
its closing quote. -/
def nextKey (first : Bool) (fuel : Nat) : Reader (Option String) := do
  let start ← do
    match ← peekAfterSpace with
    | some '}' => pure none
    | some ',' =>
      if first then pure (some ',') else do bump; peekAfterSpace
    | some c => if first then pure (some c) else peekErr .expectedObjectCommaOrEnd
    | none => peekErr .eofWhileParsingObject
  match start with
  | none => pure none
  | some '"' => do bump; some <$> readString fuel
  | some '}' => peekErr .trailingComma
  | some _ => peekErr .keyMustBeAString

mutual

/-- Read any value, with `depth` nesting levels left. -/
def readValue (depth : Nat) : Nat → Reader JsonValue
  | 0 => err .eofWhileParsingValue
  | fuel + 1 => placed do
    match ← peekAfterSpace with
    | none => peekErr .eofWhileParsingValue
    | some 'n' => do bump; readIdent ['u', 'l', 'l']; pure .null
    | some 't' => do bump; readIdent ['r', 'u', 'e']; pure (.bool true)
    | some 'f' => do bump; readIdent ['a', 'l', 's', 'e']; pure (.bool false)
    | some '-' => do bump; Num.toValue <$> readNumber false fuel
    | some '"' => do bump; JsonValue.str <$> readString fuel
    | some '[' =>
      if depth ≤ 1 then peekErr .recursionLimitExceeded
      else do
        bump
        closing (JsonValue.arr <$> readElements (depth - 1) fuel true []) closeArray
    | some '{' =>
      if depth ≤ 1 then peekErr .recursionLimitExceeded
      else do
        bump
        closing (sortedObj <$> readMembers (depth - 1) fuel true []) closeObject
    | some c =>
      if c.isDigit then Num.toValue <$> readNumber true fuel else peekErr .expectedSomeValue

/-- Read array elements up to (not including) the closing bracket. -/
def readElements (depth : Nat) : Nat → Bool → List JsonValue → Reader (List JsonValue)
  | 0, _, acc => pure acc.reverse
  | fuel + 1, first, acc => do
    match ← nextElement first with
    | none => pure acc.reverse
    | some () => do
      let v ← readValue depth fuel
      readElements depth fuel false (v :: acc)

/-- Read object members up to (not including) the closing brace. -/
def readMembers (depth : Nat) : Nat → Bool → List (String × JsonValue) →
    Reader (List (String × JsonValue))
  | 0, _, acc => pure acc.reverse
  | fuel + 1, first, acc => do
    match ← nextKey first fuel with
    | none => pure acc.reverse
    | some k => do
      readColon
      let v ← readValue depth fuel
      readMembers depth fuel false ((k, v) :: acc)

end

mutual

/-- Check and skip any value, with no nesting limit. -/
def skipValue : Nat → Reader Unit
  | 0 => err .eofWhileParsingValue
  | fuel + 1 => do
    match ← peekAfterSpace with
    | none => peekErr .eofWhileParsingValue
    | some 'n' => do bump; readIdent ['u', 'l', 'l']
    | some 't' => do bump; readIdent ['r', 'u', 'e']
    | some 'f' => do bump; readIdent ['a', 'l', 's', 'e']
    | some '-' => do bump; skipNumber fuel
    | some '"' => do bump; skipString fuel
    | some '[' => do
      bump
      match ← peekAfterSpace with
      | some ']' => bump
      | some _ => do skipValue fuel; skipElements fuel
      | none => peekErr .eofWhileParsingList
    | some '{' => do
      bump
      match ← peekAfterSpace with
      | some '}' => bump
      | some _ => do skipMember fuel; skipMembers fuel
      | none => peekErr .eofWhileParsingObject
    | some c => if c.isDigit then skipNumber fuel else peekErr .expectedSomeValue

/-- After an element: a comma and another element, or the closing bracket. -/
def skipElements : Nat → Reader Unit
  | 0 => err .eofWhileParsingList
  | fuel + 1 => do
    match ← peekAfterSpace with
    | some ',' => do bump; skipValue fuel; skipElements fuel
    | some ']' => bump
    | some _ => peekErr .expectedListCommaOrEnd
    | none => peekErr .eofWhileParsingList

/-- One member: a string key, a colon and a value. -/
def skipMember : Nat → Reader Unit
  | 0 => err .eofWhileParsingObject
  | fuel + 1 => do
    match ← peekAfterSpace with
    | some '"' => do
      bump
      skipString fuel
      readColon
      skipValue fuel
    | some _ => peekErr .keyMustBeAString
    | none => peekErr .eofWhileParsingObject

/-- After a member: a comma and another member, or the closing brace. -/
def skipMembers : Nat → Reader Unit
  | 0 => err .eofWhileParsingObject
  | fuel + 1 => do
    match ← peekAfterSpace with
    | some ',' => do bump; skipMember fuel; skipMembers fuel
    | some '}' => bump
    | some _ => peekErr .expectedObjectCommaOrEnd
    | none => peekErr .eofWhileParsingObject

end

/-- A map from strings to values: an object whose members are read as values, sorted by
key with the last of equal keys kept. -/
def readStringMap (depth fuel : Nat) : Reader (List (String × JsonValue)) := placed do
  match ← peekAfterSpace with
  | none => peekErr .eofWhileParsingValue
  | some '{' =>
    if depth ≤ 1 then peekErr .recursionLimitExceeded
    else do
      bump
      closing (do
        let kvs ← readMembers (depth - 1) fuel true []
        pure (match sortedObj kvs with
          | .obj sorted => sorted
          | _ => [])) closeObject
  | some _ => invalidTypeHere "a map" fuel

/-- Quote each name with backticks and join them for an error message. -/
def tickList (names : List String) : String :=
  ", ".intercalate (names.map fun n => "`" ++ n ++ "`")

/-- `unknown field`: names the field and lists what was expected. -/
def unknownField (key : String) (fields : List String) : String :=
  "unknown field `" ++ key ++ "`, " ++
    match fields with
    | [] => "there are no fields"
    | [a] => "expected `" ++ a ++ "`"
    | [a, b] => "expected `" ++ a ++ "` or `" ++ b ++ "`"
    | _ => "expected one of " ++ tickList fields

/-- How a record is read. `readField i st` reads the value of field `i` into the state;
`default? i` is the value a missing array element takes, if the field has one; `finish`
checks for missing fields once the members are done. -/
structure RecordSpec (σ α : Type) where
  name : String
  fields : List String
  denyUnknown : Bool
  init : σ
  readField : Nat → σ → Nat → Reader σ
  hasDefault : Nat → Bool
  finish : σ → Except String α

/-- Read a record's object members after `{` (not including `}`). -/
def readRecordMembers (spec : RecordSpec σ α) : Nat → Bool → σ → List Nat → Reader σ
  | 0, _, st, _ => pure st
  | fuel + 1, first, st, seen => do
    match ← nextKey first fuel with
    | none => pure st
    | some k =>
      match spec.fields.idxOf? k with
      | some i =>
        if seen.contains i then custom (duplicateField k)
        else do
          readColon
          let st' ← spec.readField i st fuel
          readRecordMembers spec fuel false st' (i :: seen)
      | none =>
        if spec.denyUnknown then custom (unknownField k spec.fields)
        else do
          readColon
          skipValue fuel
          readRecordMembers spec fuel false st seen

/-- Read a record's fields in order from an array after `[` (not including `]`). A missing
element takes the field's default, or is an `invalid length` error. -/
def readRecordElements (spec : RecordSpec σ α) (fuel : Nat) : Nat → List String → Bool → σ →
    Reader σ
  | _, [], _, st => pure st
  | i, _ :: rest, first, st => do
    match ← nextElement first with
    | some () => do
      let st' ← spec.readField i st fuel
      readRecordElements spec fuel (i + 1) rest false st'
    | none =>
      if spec.hasDefault i then readRecordElements spec fuel (i + 1) rest first st
      else custom ("invalid length " ++ natText i ++ ", expected " ++ spec.name ++ " with " ++
        natText spec.fields.length ++ " elements")

/-- Read a record from an object or an array of its fields. -/
def readRecord (spec : RecordSpec σ α) (fuel : Nat) : Reader α := placed do
  match ← peekAfterSpace with
  | none => peekErr .eofWhileParsingValue
  | some '{' => do
    bump
    closing (do
      let st ← readRecordMembers spec fuel true spec.init []
      ofExcept (spec.finish st)) closeObject
  | some '[' => do
    bump
    closing (do
      let st ← readRecordElements spec fuel 0 spec.fields true spec.init
      ofExcept (spec.finish st)) closeArray
  | some _ => invalidTypeHere spec.name fuel

/-- Nothing but white space may follow the value. -/
def readEnd : Reader Unit := do
  match ← peekAfterSpace with
  | some _ => peekErr .trailingCharacters
  | none => pure ()

/-- Run a reader over a whole text, which must hold nothing after the value. The fuel bounds
every loop by the length of the text. -/
def readText (s : String) (r : Nat → Reader α) : Except JsonError α :=
  let fuel := 2 * s.length + 8
  match (do let a ← r fuel; readEnd; pure a : Reader α).run (Cursor.ofString s) with
  | .ok a _ => .ok a
  | .fail e _ => .error e

/-- Read a whole text as one JSON value. -/
def parseValue (s : String) : Except JsonError JsonValue :=
  readText s (readValue nestingLimit)

end PointerAccel.Json
