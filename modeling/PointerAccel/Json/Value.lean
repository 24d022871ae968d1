import PointerAccel.Binary.Render

/-!
# JSON values and their text

A JSON tree whose numbers remember how they are written: unsigned and signed integers
exactly, singles and doubles through the shortest-digit layout of their own format. A
non-finite float is written `null`. Objects keep the order they are built in; writers that
sort keys sort before building.

Two layouts are produced: compact, with no white space at all, and pretty, with two-space
indentation, one member per line and `": "` after keys; empty containers stay `[]` and
`{}`.
-/

namespace PointerAccel.Json

open PointerAccel.Binary

/-- A JSON value. -/
inductive JsonValue where
  | null
  | bool (b : Bool)
  | nat (n : Nat)
  | int (z : Int)
  | single (x : Float32)
  | double (x : Float)
  | str (s : String)
  | arr (xs : List JsonValue)
  | obj (kvs : List (String × JsonValue))

/-- Hexadecimal digit for a nibble, lowercase. -/
def hexDigit (n : Nat) : Char :=
  if n < 10 then Char.ofNat (n + 48) else Char.ofNat (n + 87)

/-- The escaped form of one character inside a JSON string. -/
def escapeChar (c : Char) : List Char :=
  if c = '"' then ['\\', '"']
  else if c = '\\' then ['\\', '\\']
  else if c = '\n' then ['\\', 'n']
  else if c = '\r' then ['\\', 'r']
  else if c = '\t' then ['\\', 't']
  else if c.toNat = 8 then ['\\', 'b']
  else if c.toNat = 12 then ['\\', 'f']
  else if c.toNat < 32 then
    ['\\', 'u', '0', '0', hexDigit (c.toNat / 16), hexDigit (c.toNat % 16)]
  else [c]

/-- A string as a JSON string literal. -/
def quote (s : String) : String :=
  String.ofList ('"' :: (s.toList.flatMap escapeChar ++ ['"']))

/-- The text of a number or `null` for a non-finite float. -/
def numberText : JsonValue → String
  | .nat n => natText n
  | .int z => intText z
  | .single x => (jsonSingle x).getD "null"
  | .double x => (jsonDouble x).getD "null"
  | _ => "null"

mutual

/-- Compact text of a value. -/
def compact : JsonValue → String
  | .null => "null"
  | .bool b => if b then "true" else "false"
  | .str s => quote s
  | .arr xs => "[" ++ compactList xs ++ "]"
  | .obj kvs => "\x7b" ++ compactFields kvs ++ "\x7d"
  | v => numberText v

/-- Compact text of array elements, comma separated. -/
def compactList : List JsonValue → String
  | [] => ""
  | [x] => compact x
  | x :: xs => compact x ++ "," ++ compactList xs

/-- Compact text of object members, comma separated. -/
def compactFields : List (String × JsonValue) → String
  | [] => ""
  | [(k, v)] => quote k ++ ":" ++ compact v
  | (k, v) :: kvs => quote k ++ ":" ++ compact v ++ "," ++ compactFields kvs

end

/-- Indentation for a nesting level. -/
def indent (level : Nat) : String := String.ofList (List.replicate (2 * level) ' ')

mutual

/-- Pretty text of a value whose first line is already indented to `level`. -/
def pretty (level : Nat) : JsonValue → String
  | .null => "null"
  | .bool b => if b then "true" else "false"
  | .str s => quote s
  | .arr [] => "[]"
  | .arr xs => "[\n" ++ prettyList (level + 1) xs ++ "\n" ++ indent level ++ "]"
  | .obj [] => "\x7b\x7d"
  | .obj kvs => "\x7b\n" ++ prettyFields (level + 1) kvs ++ "\n" ++ indent level ++ "\x7d"
  | v => numberText v

/-- Pretty text of array elements, one per line at `level`. -/
def prettyList (level : Nat) : List JsonValue → String
  | [] => ""
  | [x] => indent level ++ pretty level x
  | x :: xs => indent level ++ pretty level x ++ ",\n" ++ prettyList level xs

/-- Pretty text of object members, one per line at `level`. -/
def prettyFields (level : Nat) : List (String × JsonValue) → String
  | [] => ""
  | [(k, v)] => indent level ++ quote k ++ ": " ++ pretty level v
  | (k, v) :: kvs => indent level ++ quote k ++ ": " ++ pretty level v ++ ",\n" ++
      prettyFields level kvs

end

/-- Insert a member into a list sorted by key (byte order), replacing an equal key. -/
def insertSorted (k : String) (v : JsonValue) : List (String × JsonValue) → List (String × JsonValue)
  | [] => [(k, v)]
  | (k', v') :: rest =>
    if k = k' then (k, v) :: rest
    else if k < k' then (k, v) :: (k', v') :: rest
    else (k', v') :: insertSorted k v rest

/-- An object with its members sorted by key, later duplicates replacing earlier ones. -/
def sortedObj (kvs : List (String × JsonValue)) : JsonValue :=
  .obj (kvs.foldl (fun acc (k, v) => insertSorted k v acc) [])

end PointerAccel.Json
