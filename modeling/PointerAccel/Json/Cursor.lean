import PointerAccel.Binary.Render

/-!
# Reading position and reader errors

The JSON reader walks the text as a list of characters and keeps the line it is on and the
number of bytes it has consumed on that line. That pair is the position an error reports:
`pos` is the column of the last consumed byte, `peekPos` the column of the next one (a
newline counts as the start of the next line).

An error carries a code and a position; a position of line zero means "not placed yet".
Errors raised while interpreting an already-read token (a wrong type, a missing field)
start unplaced and are placed by the innermost enclosing value reader, at wherever the
cursor stands when the error reaches it.
-/

namespace PointerAccel.Json

/-- The text still to read, with the line and byte column reached. -/
structure Cursor where
  rest : List Char
  line : Nat
  col : Nat

namespace Cursor

/-- A cursor at the start of a text. -/
def ofString (s : String) : Cursor := ⟨s.toList, 1, 0⟩

/-- The next character, if any. -/
def peek (c : Cursor) : Option Char := c.rest.head?

/-- Consume one character. -/
def bump (c : Cursor) : Cursor :=
  match c.rest with
  | [] => c
  | ch :: r => if ch = '\n' then ⟨r, c.line + 1, 0⟩ else ⟨r, c.line, c.col + ch.utf8Size⟩

/-- Position of the last consumed byte. -/
def pos (c : Cursor) : Nat × Nat := (c.line, c.col)

/-- Position of the next byte (the current one at the end of the text). -/
def peekPos (c : Cursor) : Nat × Nat :=
  match c.rest with
  | [] => (c.line, c.col)
  | ch :: _ => if ch = '\n' then (c.line + 1, 0) else (c.line, c.col + 1)

end Cursor

/-- Whether a character is JSON white space. -/
def isJsonSpace (c : Char) : Bool := c == ' ' || c == '\n' || c == '\t' || c == '\r'

/-- Skip JSON white space from a text position. -/
def skipSpaceFrom : List Char → Nat → Nat → Cursor
  | ch :: r, line, col =>
    if ch = '\n' then skipSpaceFrom r (line + 1) 0
    else if ch = ' ' ∨ ch = '\t' ∨ ch = '\r' then skipSpaceFrom r line (col + 1)
    else ⟨ch :: r, line, col⟩
  | [], line, col => ⟨[], line, col⟩

/-- What went wrong, as the reader reports it. -/
inductive ErrorCode where
  | eofWhileParsingList
  | eofWhileParsingObject
  | eofWhileParsingString
  | eofWhileParsingValue
  | expectedColon
  | expectedListCommaOrEnd
  | expectedObjectCommaOrEnd
  | expectedSomeIdent
  | expectedSomeValue
  | invalidEscape
  | invalidNumber
  | numberOutOfRange
  | invalidUnicodeCodePoint
  | controlCharacterWhileParsingString
  | keyMustBeAString
  | loneLeadingSurrogateInHexEscape
  | trailingComma
  | trailingCharacters
  | unexpectedEndOfHexEscape
  | recursionLimitExceeded
  | message (text : String)

/-- The text of an error code. -/
def ErrorCode.text : ErrorCode → String
  | .eofWhileParsingList => "EOF while parsing a list"
  | .eofWhileParsingObject => "EOF while parsing an object"
  | .eofWhileParsingString => "EOF while parsing a string"
  | .eofWhileParsingValue => "EOF while parsing a value"
  | .expectedColon => "expected `:`"
  | .expectedListCommaOrEnd => "expected `,` or `]`"
  | .expectedObjectCommaOrEnd => "expected `,` or `\x7d`"
  | .expectedSomeIdent => "expected ident"
  | .expectedSomeValue => "expected value"
  | .invalidEscape => "invalid escape"
  | .invalidNumber => "invalid number"
  | .numberOutOfRange => "number out of range"
  | .invalidUnicodeCodePoint => "invalid unicode code point"
  | .controlCharacterWhileParsingString =>
    "control character (\\u0000-\\u001F) found while parsing a string"
  | .keyMustBeAString => "key must be a string"
  | .loneLeadingSurrogateInHexEscape => "lone leading surrogate in hex escape"
  | .trailingComma => "trailing comma"
  | .trailingCharacters => "trailing characters"
  | .unexpectedEndOfHexEscape => "unexpected end of hex escape"
  | .recursionLimitExceeded => "recursion limit exceeded"
  | .message t => t

/-- A reader error: a code and the line and column it is reported at (line zero: unplaced). -/
structure JsonError where
  code : ErrorCode
  line : Nat
  col : Nat

/-- The message of an error, with its position when it has one. -/
def JsonError.message (e : JsonError) : String :=
  if e.line = 0 then e.code.text
  else e.code.text ++ " at line " ++ Binary.natText e.line ++ " column " ++ Binary.natText e.col

/-- The result of running a reader: a value and where reading stopped, or an error and where
it was raised. -/
inductive Outcome (α : Type) where
  | ok (a : α) (c : Cursor)
  | fail (e : JsonError) (c : Cursor)

/-- A reader over a cursor. -/
structure Reader (α : Type) where
  run : Cursor → Outcome α

instance : Monad Reader where
  pure a := ⟨fun c => .ok a c⟩
  bind m f := ⟨fun c => match m.run c with
    | .ok a c' => (f a).run c'
    | .fail e c' => .fail e c'⟩

namespace Reader

/-- The next character, not consumed. -/
def peek : Reader (Option Char) := ⟨fun c => .ok c.peek c⟩

/-- Consume one character. -/
def bump : Reader Unit := ⟨fun c => .ok () c.bump⟩

/-- Consume and return the next character, if any. -/
def next : Reader (Option Char) := ⟨fun c => .ok c.peek c.bump⟩

/-- Skip white space. -/
def skipSpace : Reader Unit := ⟨fun c => .ok () (skipSpaceFrom c.rest c.line c.col)⟩

/-- Skip white space and return the next character. -/
def peekAfterSpace : Reader (Option Char) := do skipSpace; peek

/-- Fail at the position of the last consumed byte. -/
def err (code : ErrorCode) : Reader α := ⟨fun c => .fail ⟨code, c.line, c.col⟩ c⟩

/-- Fail at the position of the next byte. -/
def peekErr (code : ErrorCode) : Reader α :=
  ⟨fun c => .fail ⟨code, c.peekPos.1, c.peekPos.2⟩ c⟩

/-- Fail with an unplaced message. -/
def custom (text : String) : Reader α := ⟨fun c => .fail ⟨.message text, 0, 0⟩ c⟩

/-- Place an unplaced error of `m` at the position reached when it failed. -/
def placed (m : Reader α) : Reader α := ⟨fun c => match m.run c with
  | .fail e c' => .fail (if e.line = 0 then ⟨e.code, c'.line, c'.col⟩ else e) c'
  | r => r⟩

/-- Run `body`, then `close` (whose own error only counts when `body` succeeded): a
container's closing check moves the cursor even after its contents failed. -/
def closing (body : Reader α) (close : Reader Unit) : Reader α := ⟨fun c =>
  match body.run c with
  | .ok a c' => match close.run c' with
    | .ok _ c'' => .ok a c''
    | .fail e c'' => .fail e c''
  | .fail e c' => match close.run c' with
    | .ok _ c'' => .fail e c''
    | .fail _ c'' => .fail e c''⟩

end Reader

end PointerAccel.Json
