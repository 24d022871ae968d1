import PointerAccel.Yaml.Node

/-!
# YAML tokens: separation, scalars and node properties

The pieces of a YAML text that are read character by character:

* the separation between tokens (spaces, comments, line breaks, and tabs where a tab may
  separate: in a flow collection, and in a block only after a token that cannot open the
  content of a line);
* plain scalars, which end at `: `, at ` #`, at a flow indicator inside a flow collection,
  or at a line indented no further than the enclosing block, and whose line breaks fold to
  spaces;
* single- and double-quoted scalars, with their escapes and the same folding;
* literal (`|`) and folded (`>`) block scalars, with their chomping and indentation
  indicators;
* anchors, aliases and tags.

Every reader here takes a cursor and returns what it read with the cursor after it. Loops
carry a budget of one step per remaining character, which is never exhausted because each
step consumes a character.
-/

namespace PointerAccel.Yaml

/-- Line breaks as `\n`: a carriage return alone or before a line feed is one break. -/
def normalizeBreaks : List Char → List Char
  | '\r' :: '\n' :: r => '\n' :: normalizeBreaks r
  | '\r' :: r => '\n' :: normalizeBreaks r
  | c :: r => c :: normalizeBreaks r
  | [] => []

/-- Whether a YAML text may hold a character: tab, line breaks and the printable
characters. -/
def isAllowedChar (ch : Char) : Bool :=
  let n := ch.toNat
  n == 0x09 || n == 0x0A || n == 0x0D || (0x20 ≤ n && n ≤ 0x7E) || n == 0x85 ||
    (0xA0 ≤ n && n ≤ 0xD7FF) || (0xE000 ≤ n && n ≤ 0xFFFD) || (0x10000 ≤ n && n ≤ 0x10FFFF)

/-- The byte offset of the first character a YAML text may not hold, if any. -/
def firstDisallowed : List Char → Nat → Option Nat
  | [], _ => none
  | ch :: r, off => if isAllowedChar ch then firstDisallowed r (off + ch.utf8Size) else some off

/-- The text still to read, with the line and character column reached. -/
structure YCursor where
  rest : List Char
  line : Nat
  col : Nat

namespace YCursor

/-- A cursor at the start of a text, its line breaks normalised and a byte order mark
dropped. -/
def ofString (s : String) : YCursor :=
  let cs := normalizeBreaks s.toList
  ⟨if cs.head? = some '﻿' then cs.tail else cs, 0, 0⟩

/-- The next character. -/
def peek (c : YCursor) : Option Char := c.rest.head?

/-- The character `i` places ahead. -/
def peekAt (c : YCursor) (i : Nat) : Option Char := c.rest[i]?

/-- Consume one character. -/
def bump (c : YCursor) : YCursor :=
  match c.rest with
  | [] => c
  | ch :: r => if ch = '\n' then ⟨r, c.line + 1, 0⟩ else ⟨r, c.line, c.col + 1⟩

/-- Consume `n` characters. -/
def bumpN (c : YCursor) : Nat → YCursor
  | 0 => c
  | n + 1 => (c.bump).bumpN n

/-- The place reached. -/
def mark (c : YCursor) : Mark := ⟨c.line, c.col⟩

/-- Whether the text is exhausted. -/
def atEnd (c : YCursor) : Bool := c.rest.isEmpty

/-- One step per remaining character, and one more. -/
def budget (c : YCursor) : Nat := c.rest.length + 1

/-- The place of the end of the text, moved to the start of a new line when the last line
is not empty. -/
def endMark (c : YCursor) : Mark := if c.col = 0 then ⟨c.line, 0⟩ else ⟨c.line + 1, 0⟩

end YCursor

/-- Whether a character is a blank: a space or a tab. -/
def isBlankChar (ch : Char) : Bool := ch == ' ' || ch == '\t'

/-- Whether a character is a blank or a line break, or the text has ended. -/
def blankOrEnd : Option Char → Bool
  | none => true
  | some ch => ch == ' ' || ch == '\t' || ch == '\n'

/-- The flow indicators, which end plain scalars inside flow collections. -/
def isFlowIndicator (ch : Char) : Bool :=
  ch == ',' || ch == '[' || ch == ']' || ch == '{' || ch == '}'

/-- Whether the cursor stands on a document marker: `---` or `...` at the start of a line,
followed by a blank or the end of the line. -/
def YCursor.atDocMarker (c : YCursor) : Bool :=
  c.col == 0 &&
    match c.rest with
    | a :: b :: d :: r =>
      ((a == '-' && b == '-' && d == '-') || (a == '.' && b == '.' && d == '.')) &&
        blankOrEnd r.head?
    | _ => false

/-- Whether the cursor stands on a block sequence entry: `-` before a blank or the end of
the line. -/
def YCursor.atEntry (c : YCursor) : Bool := c.peek == some '-' && blankOrEnd (c.peekAt 1)

/-- Whether the cursor stands on a value indicator of a block: `:` before a blank or the end
of the line. -/
def YCursor.atValue (c : YCursor) : Bool := c.peek == some ':' && blankOrEnd (c.peekAt 1)

/-- The error of a character that no token starts with. -/
def cannotStart (m : Mark) : SyntaxError :=
  ⟨"found character that cannot start any token", m, some ("while scanning for the next token", m)⟩

/-- Skip the rest of a line, up to its line break. -/
def skipToBreak : Nat → YCursor → YCursor
  | 0, c => c
  | fuel + 1, c => match c.peek with
    | none | some '\n' => c
    | some _ => skipToBreak fuel c.bump

/-- Skip the separation before the next token: spaces, comments and line breaks, and tabs
where `tabsOk` or inside a flow collection. After a line break in a block, tabs are
indentation, where they are an error. -/
def skipSep (flow : Bool) : Nat → Bool → YCursor → Except SyntaxError YCursor
  | 0, _, c => .ok c
  | fuel + 1, tabsOk, c =>
    match c.peek with
    | some ' ' => skipSep flow fuel tabsOk c.bump
    | some '\t' =>
      if flow || tabsOk then skipSep flow fuel tabsOk c.bump else .error (cannotStart c.mark)
    | some '#' => skipSep flow fuel tabsOk (skipToBreak c.budget c)
    | some '\n' => skipSep flow fuel flow c.bump
    | _ => .ok c

/-- Skip to the next token from a cursor. -/
def YCursor.skipSep (c : YCursor) (flow tabsOk : Bool) : Except SyntaxError YCursor :=
  Yaml.skipSep flow c.budget tabsOk c

/-! ## Plain scalars -/

/-- Whether `:` followed by this character ends a plain scalar inside a flow collection. -/
def endsFlowPlain (ch : Char) : Bool := isFlowIndicator ch || ch == '?'

/-- One word of a plain scalar, reversed: characters up to a blank, a line break or `: `,
and inside a flow collection up to a flow indicator or a `:` before one. -/
def plainWord (flow : Bool) : Nat → YCursor → List Char → List Char × YCursor
  | 0, c, acc => (acc, c)
  | fuel + 1, c, acc =>
    match c.rest with
    | [] => (acc, c)
    | ch :: r =>
      let next := r.head?
      if ch == ' ' || ch == '\t' || ch == '\n' then (acc, c)
      else if ch == ':' && (blankOrEnd next || (flow && next.any endsFlowPlain)) then (acc, c)
      else if flow && isFlowIndicator ch then (acc, c)
      else plainWord flow fuel c.bump (ch :: acc)

/-- The blanks and line breaks after a word of a plain scalar: the blanks before the first
break, reversed, and the number of breaks. A tab in the indentation of a continuation line,
left of the scalar's indentation, is an error. -/
def plainBlanks (indent : Int) (start : Mark) :
    Nat → YCursor → List Char → Nat → Except SyntaxError (List Char × Nat × YCursor)
  | 0, c, ws, n => .ok (ws, n, c)
  | fuel + 1, c, ws, n =>
    match c.peek with
    | some '\n' => plainBlanks indent start fuel c.bump [] (n + 1)
    | some ch =>
      if isBlankChar ch then
        if n > 0 && ch == '\t' && (c.col : Int) < indent then
          .error ⟨"found a tab character that violates indentation", c.mark,
            some ("while scanning a plain scalar", start)⟩
        else plainBlanks indent start fuel c.bump (if n == 0 then ch :: ws else ws) n
      else .ok (ws, n, c)
    | none => .ok (ws, n, c)

/-- How the separation between two words of a scalar is kept, reversed: blanks on one line
as they are, one line break as a space, more breaks as all but the first. -/
def foldJoin (ws : List Char) (breaks : Nat) : List Char :=
  if breaks == 0 then ws
  else if breaks == 1 then [' ']
  else List.replicate (breaks - 1) '\n'

/-- The words of a plain scalar from the second on. Returns the value reversed, the line of
its last word and the cursor at the next token (after the blanks and breaks that
followed). -/
def plainRest (flow : Bool) (indent : Int) (start : Mark) :
    Nat → YCursor → List Char → List Char → Nat → Nat →
      Except SyntaxError (List Char × Nat × YCursor)
  | 0, c, acc, _, _, endLine => .ok (acc, endLine, c)
  | fuel + 1, c, acc, ws, breaks, endLine =>
    if c.atDocMarker || c.peek == some '#' then .ok (acc, endLine, c) else
    let (word, c1) := plainWord flow c.budget c []
    if word.isEmpty then .ok (acc, endLine, c) else
    let acc := word ++ foldJoin ws breaks ++ acc
    if blankOrEnd c1.peek && !c1.atEnd then do
      let (ws', breaks', c2) ← plainBlanks indent start c1.budget c1 [] 0
      if !flow && (c2.col : Int) < indent then .ok (acc, c1.line, c2)
      else plainRest flow indent start fuel c2 acc ws' breaks' c1.line
    else .ok (acc, c1.line, c1)

/-- A plain scalar at the cursor, continued on lines indented at least `indent`: its value,
the line of its last word, and the cursor at the next token. -/
def scanPlain (flow : Bool) (indent : Int) (c : YCursor) :
    Except SyntaxError (String × Nat × YCursor) := do
  let (acc, endLine, c') ← plainRest flow indent c.mark c.budget c [] [] 0 c.line
  pure (String.ofList acc.reverse, endLine, c')

/-! ## Quoted scalars -/

/-- The value of a hexadecimal digit. -/
def hexValue (ch : Char) : Option Nat :=
  if '0' ≤ ch ∧ ch ≤ '9' then some (ch.toNat - 48)
  else if 'a' ≤ ch ∧ ch ≤ 'f' then some (ch.toNat - 87)
  else if 'A' ≤ ch ∧ ch ≤ 'F' then some (ch.toNat - 55)
  else none

/-- Read `n` hexadecimal digits into a number. -/
def readHexDigits : Nat → List Char → Nat → Option Nat
  | 0, _, v => some v
  | n + 1, ch :: r, v => (hexValue ch).bind fun d => readHexDigits n r (16 * v + d)
  | _ + 1, [], _ => none

/-- The character a one-letter escape stands for. -/
def simpleEscape : Char → Option Char
  | '0' => some (Char.ofNat 0)
  | 'a' => some (Char.ofNat 7)
  | 'b' => some (Char.ofNat 8)
  | 't' => some '\t'
  | '\t' => some '\t'
  | 'n' => some '\n'
  | 'v' => some (Char.ofNat 11)
  | 'f' => some (Char.ofNat 12)
  | 'r' => some '\r'
  | 'e' => some (Char.ofNat 27)
  | ' ' => some ' '
  | '"' => some '"'
  | '/' => some '/'
  | '\'' => some '\''
  | '\\' => some '\\'
  | 'N' => some (Char.ofNat 0x85)
  | '_' => some (Char.ofNat 0xA0)
  | 'L' => some (Char.ofNat 0x2028)
  | 'P' => some (Char.ofNat 0x2029)
  | _ => none

/-- The number of hexadecimal digits after an escape letter that takes a code. -/
def codeLength : Char → Nat
  | 'x' => 2
  | 'u' => 4
  | 'U' => 8
  | _ => 0

/-- An escape in a double-quoted scalar, the cursor on its backslash: the character it
stands for and the cursor after it. -/
def readEscape (start : Mark) (c : YCursor) : Except SyntaxError (Char × YCursor) :=
  let ctx := some ("while parsing a quoted scalar", start)
  match c.peekAt 1 with
  | none => .error ⟨"found unknown escape character", c.mark, ctx⟩
  | some e =>
    match simpleEscape e with
    | some ch => .ok (ch, c.bumpN 2)
    | none =>
      let len := codeLength e
      if len == 0 then .error ⟨"found unknown escape character", c.mark, ctx⟩ else
      let c2 := c.bumpN 2
      match readHexDigits len c2.rest 0 with
      | none => .error ⟨"did not find expected hexdecimal number", c2.mark, ctx⟩
      | some v =>
        if (0xD800 ≤ v ∧ v ≤ 0xDFFF) ∨ 0x10FFFF < v then
          .error ⟨"found invalid Unicode character escape code", c2.mark, ctx⟩
        else .ok (Char.ofNat v, c2.bumpN len)

/-- How a run of non-blank characters of a quoted scalar ended. -/
inductive RunEnd where
  /-- At a blank, a line break or the end of the text. -/
  | blank
  /-- At an escaped line break, which joins the lines without a space. -/
  | joined
  /-- At the closing quote. -/
  | closed

/-- A run of non-blank characters of a quoted scalar, added reversed to `acc`. -/
def quotedRun (single : Bool) (start : Mark) :
    Nat → YCursor → List Char → Except SyntaxError (List Char × RunEnd × YCursor)
  | 0, c, acc => .ok (acc, .blank, c)
  | fuel + 1, c, acc =>
    match c.peek with
    | none => .ok (acc, .blank, c)
    | some ch =>
      if ch == ' ' || ch == '\t' || ch == '\n' then .ok (acc, .blank, c)
      else if single && ch == '\'' then
        if c.peekAt 1 == some '\'' then quotedRun single start fuel (c.bumpN 2) ('\'' :: acc)
        else .ok (acc, .closed, c)
      else if !single && ch == '"' then .ok (acc, .closed, c)
      else if !single && ch == '\\' then
        if c.peekAt 1 == some '\n' then .ok (acc, .joined, c.bumpN 2)
        else do
          let (e, c') ← readEscape start c
          quotedRun single start fuel c' (e :: acc)
      else quotedRun single start fuel c.bump (ch :: acc)

/-- The blanks and line breaks between runs of a quoted scalar: the blanks, reversed (kept
only when no break follows), whether a line break came first (not after an escaped break),
and the number of further breaks. -/
def quotedBlanks : Nat → YCursor → Bool → List Char → Bool → Nat →
    List Char × Bool × Nat × YCursor
  | 0, c, _, ws, first, more => (ws, first, more, c)
  | fuel + 1, c, leading, ws, first, more =>
    match c.peek with
    | some '\n' =>
      if leading then quotedBlanks fuel c.bump true ws first (more + 1)
      else quotedBlanks fuel c.bump true [] true more
    | some ch =>
      if isBlankChar ch then
        quotedBlanks fuel c.bump leading (if leading then ws else ch :: ws) first more
      else (ws, first, more, c)
    | none => (ws, first, more, c)

/-- The rest of a quoted scalar, the cursor inside it: its value reversed and the cursor
after the closing quote. -/
def quotedRest (single : Bool) (start : Mark) :
    Nat → YCursor → List Char → Except SyntaxError (List Char × YCursor)
  | 0, c, acc => .ok (acc, c)
  | fuel + 1, c, acc =>
    let ctx := some ("while scanning a quoted scalar", start)
    if c.atDocMarker then .error ⟨"found unexpected document indicator", c.mark, ctx⟩
    else if c.atEnd then .error ⟨"found unexpected end of stream", c.mark, ctx⟩
    else do
      let (acc, stop, c1) ← quotedRun single start c.budget c acc
      match stop with
      | .closed => .ok (acc, c1.bump)
      | .joined =>
        let (_, _, more, c2) := quotedBlanks c1.budget c1 true [] false 0
        quotedRest single start fuel c2 (List.replicate more '\n' ++ acc)
      | .blank =>
        let (ws, first, more, c2) := quotedBlanks c1.budget c1 false [] false 0
        let sep := if first then foldJoin [] (more + 1) else ws
        quotedRest single start fuel c2 (sep ++ acc)

/-- A quoted scalar, the cursor on its opening quote: its value and the cursor after it. -/
def scanQuoted (single : Bool) (c : YCursor) : Except SyntaxError (String × YCursor) := do
  let (acc, c') ← quotedRest single c.mark c.budget c.bump []
  pure (String.ofList acc.reverse, c')

/-! ## Block scalars -/

/-- The header of a block scalar after its `|` or `>`: chomping (`-1` strip, `0` clip,
`1` keep) and the indentation increment (`0` when it is to be detected). -/
def blockHeader (start : Mark) (c : YCursor) : Except SyntaxError (Int × Nat × YCursor) :=
  let ctx := some ("while scanning a block scalar", start)
  let chomp (ch : Option Char) : Option Int :=
    if ch == some '+' then some 1 else if ch == some '-' then some (-1) else none
  let digit (ch : Option Char) : Option Nat :=
    match ch with
    | some d => if '0' ≤ d ∧ d ≤ '9' then some (d.toNat - 48) else none
    | none => none
  let zeroErr (m : Mark) : SyntaxError :=
    ⟨"found an indentation indicator equal to 0", m, ctx⟩
  match chomp c.peek with
  | some ch =>
    match digit (c.peekAt 1) with
    | some 0 => .error (zeroErr c.bump.mark)
    | some d => .ok (ch, d, c.bumpN 2)
    | none => .ok (ch, 0, c.bump)
  | none =>
    match digit c.peek with
    | some 0 => .error (zeroErr c.mark)
    | some d =>
      match chomp (c.peekAt 1) with
      | some ch => .ok (ch, d, c.bumpN 2)
      | none => .ok (0, d, c.bump)
    | none => .ok (0, 0, c)

/-- Skip spaces of a block scalar's indentation, up to column `indent` (all of them while
the indentation is still to be detected). -/
def blockIndentSpaces (indent : Nat) : Nat → YCursor → YCursor
  | 0, c => c
  | fuel + 1, c =>
    if (indent == 0 || c.col < indent) && c.peek == some ' ' then
      blockIndentSpaces indent fuel c.bump
    else c

/-- The empty lines before a line of block scalar content: their number, the deepest
indentation among them, and the cursor on the next line's first character past the
indentation. -/
def blockBreaks (indent : Nat) (start : Mark) :
    Nat → YCursor → Nat → Nat → Except SyntaxError (Nat × Nat × YCursor)
  | 0, c, n, maxIndent => .ok (n, maxIndent, c)
  | fuel + 1, c, n, maxIndent =>
    let c := blockIndentSpaces indent c.budget c
    let maxIndent := max maxIndent c.col
    if (indent == 0 || c.col < indent) && c.peek == some '\t' then
      .error ⟨"found a tab character where an indentation space is expected", c.mark,
        some ("while scanning a block scalar", start)⟩
    else if c.peek == some '\n' then blockBreaks indent start fuel c.bump (n + 1) maxIndent
    else .ok (n, maxIndent, c)

/-- The lines of a block scalar at indentation `indent`, added reversed to `acc`. The state
is whether a line break is pending before the next line, the number of empty lines after
it, and whether the previous line started with a blank. -/
def blockLines (literal : Bool) (indent : Nat) (start : Mark) :
    Nat → YCursor → List Char → Bool → Nat → Bool →
      Except SyntaxError (List Char × Bool × Nat × YCursor)
  | 0, c, acc, lead, trail, _ => .ok (acc, lead, trail, c)
  | fuel + 1, c, acc, lead, trail, leadBlank =>
    if c.col != indent || c.atEnd then .ok (acc, lead, trail, c) else
    let trailBlank := c.peek.any isBlankChar
    let acc :=
      if !literal && lead && !leadBlank && !trailBlank then
        if trail == 0 then ' ' :: acc else acc
      else if lead then '\n' :: acc else acc
    let acc := List.replicate trail '\n' ++ acc
    let leadBlank := c.peek.any isBlankChar
    let lineEnd := skipToBreak c.budget c
    let acc := (c.rest.take (c.rest.length - lineEnd.rest.length)).reverse ++ acc
    let lead := lineEnd.peek == some '\n'
    let c := if lead then lineEnd.bump else lineEnd
    match blockBreaks indent start c.budget c 0 0 with
    | .error e => .error e
    | .ok (trail, _, c) => blockLines literal indent start fuel c acc lead trail leadBlank

/-- A block scalar, the cursor on its `|` (literal) or `>` (folded), inside a block whose
indentation is `parent`: its value and the cursor at the next token. -/
def scanBlockScalar (literal : Bool) (parent : Int) (c : YCursor) :
    Except SyntaxError (String × YCursor) := do
  let start := c.mark
  let ctx := some ("while scanning a block scalar", start)
  let (chomping, increment, c) ← blockHeader start c.bump
  let c := skipToBreak c.budget (dropBlanks c)
  let c ← match c.peek with
    | some '\n' => pure c.bump
    | none => pure c
    | some _ => .error ⟨"did not find expected comment or line break", c.mark, ctx⟩
  let fixed : Nat :=
    if increment == 0 then 0 else if parent ≥ 0 then parent.toNat + increment else increment
  let (trail, maxIndent, c) ← blockBreaks fixed start c.budget c 0 0
  let indent :=
    if fixed != 0 then fixed else max (max maxIndent (parent + 1).toNat) 1
  let (acc, lead, trail, c) ← blockLines literal indent start c.budget c [] false trail false
  let acc := if chomping != -1 && lead then '\n' :: acc else acc
  let acc := if chomping == 1 then List.replicate trail '\n' ++ acc else acc
  pure (String.ofList acc.reverse, c)
where
  /-- Skip spaces and tabs after the header. -/
  dropBlanks (c : YCursor) : YCursor :=
    let n := (c.rest.takeWhile isBlankChar).length
    c.bumpN n

/-! ## Anchors, aliases and tags -/

/-- Whether a character may appear in an anchor name. -/
def isAnchorChar (ch : Char) : Bool :=
  ('0' ≤ ch ∧ ch ≤ '9') || ('a' ≤ ch ∧ ch ≤ 'z') || ('A' ≤ ch ∧ ch ≤ 'Z') || ch == '_' ||
    ch == '-'

/-- The name after `&` or `*`, the cursor on that sign: the name and the cursor after it.
The name must be followed by a blank or an indicator that may follow it. -/
def scanAnchorName (isAlias : Bool) (c : YCursor) : Except SyntaxError (String × YCursor) :=
  let name := c.bump.rest.takeWhile isAnchorChar
  let c' := c.bump.bumpN name.length
  let follows := match c'.peek with
    | none => true
    | some ch => blankOrEnd (some ch) || "?:,]\x7d%@`".toList.contains ch
  if name.isEmpty || !follows then
    .error ⟨"did not find expected alphabetic or numeric character", c'.mark,
      some (if isAlias then "while scanning an alias" else "while scanning an anchor", c.mark)⟩
  else .ok (String.ofList name, c')

/-- Whether a character may appear in a tag. -/
def isTagChar (flow : Bool) (ch : Char) : Bool :=
  isAnchorChar ch || ";/?:@&=+$.%!~*'()".toList.contains ch ||
    (!flow && (ch == ',' || ch == '[' || ch == ']'))

/-- A tag, the cursor on its `!`: the tag and the cursor after it. `!!name` is a tag of the
core schema, `!name` a local tag, `!<uri>` a verbatim tag; another named handle is not
declared by this reader and is an error. The tag must be followed by a blank (or a comma
inside a flow collection). -/
def scanTag (flow : Bool) (c : YCursor) : Except SyntaxError (String × YCursor) := do
  let start := c.mark
  let ctx := some ("while scanning a tag", start)
  let (tag, c') ←
    if c.peekAt 1 == some '<' then
      let body := (c.bumpN 2).rest.takeWhile (isTagChar false)
      let c' := (c.bumpN 2).bumpN body.length
      if body.isEmpty then Except.error ⟨"did not find expected tag URI", c'.mark, ctx⟩
      else if c'.peek != some '>' then
        Except.error ⟨"did not find the expected '>'", c'.mark, ctx⟩
      else pure (String.ofList body, c'.bump)
    else
      let word := c.bump.rest.takeWhile isAnchorChar
      let afterWord := c.bump.bumpN word.length
      if afterWord.peek == some '!' then
        if word.isEmpty then
          let suffix := afterWord.bump.rest.takeWhile (isTagChar flow)
          let c' := afterWord.bump.bumpN suffix.length
          if suffix.isEmpty then Except.error ⟨"did not find expected tag URI", c'.mark, ctx⟩
          else pure (coreTag (String.ofList suffix), c')
        else Except.error ⟨"found undefined tag handle", start,
          some ("while parsing a node", start)⟩
      else
        let suffix := c.bump.rest.takeWhile (isTagChar flow)
        pure ("!" ++ String.ofList suffix, c.bump.bumpN suffix.length)
  if blankOrEnd c'.peek || (flow && c'.peek == some ',') then pure (tag, c')
  else .error ⟨"did not find expected whitespace or line break", c'.mark, ctx⟩

end PointerAccel.Yaml
