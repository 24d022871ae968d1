import PointerAccel.Yaml.Scan

/-!
# Reading the structure of a YAML document

Block collections are laid out by columns. A block mapping is a run of `key: value` entries
whose keys start in one column; a block sequence a run of `- item` entries whose dashes
start in one column. A key is a scalar on one line followed by `: `. An entry's value starts
on the key's line or on a later line further right; a sequence that is a mapping value may
also start in the key's column. A token left of a collection's column ends it, a token
right of it where an entry should start is an error.

A block collection can only open where a line's content starts (or after `- `): a `- ` or a
key after `key: ` on the same line is refused, as are tabs in indentation.

Flow collections (`[a, b]`, `{a: 1}`) may span lines and nest freely. Anchors (`&a`) name
the node they precede and aliases (`*a`) repeat it; an alias to an unknown anchor is an
error. Only the first document of a text is read; the reader reports whether anything
follows it.
-/

namespace PointerAccel.Yaml

/-- What the reader carries: the cursor and the anchors defined so far, latest first. -/
structure ReadState where
  cur : YCursor
  anchors : List (String × YamlNode)

/-- A reader of YAML structure. -/
abbrev YRead := StateT ReadState (Except SyntaxError)

namespace YRead

/-- The cursor. -/
def cursor : YRead YCursor := do return (← get).cur

/-- Move the cursor. -/
def setCursor (c : YCursor) : YRead Unit := modify fun s => { s with cur := c }

/-- Run a scanner at the cursor and move past what it read. -/
def scan (r : YCursor → Except SyntaxError (α × YCursor)) : YRead α := do
  match r (← cursor) with
  | .ok (a, c) => setCursor c; pure a
  | .error e => throw e

/-- Skip to the next token. -/
def separate (flow tabsOk : Bool) : YRead Unit := do
  match (← cursor).skipSep flow tabsOk with
  | .ok c => setCursor c
  | .error e => throw e

/-- Give a node an anchor name. -/
def define (name : String) (n : YamlNode) : YRead Unit :=
  modify fun s => { s with anchors := (name, n) :: s.anchors }

/-- The node an anchor names. -/
def lookup (name : String) : YRead (Option YamlNode) := do
  return ((← get).anchors.find? (fun p => p.1 == name)).map Prod.snd

/-- The error of running out of steps, which a text never causes. -/
def exhausted : YRead α := do throw ⟨"recursion limit exceeded", (← cursor).mark, none⟩

end YRead

open YRead

/-- A property read before a node: a tag or an anchor. -/
inductive Property where
  | tag (t : String)
  | anchor (name : String)

/-- A property at the cursor, if one starts there. -/
def readProperty (flow : Bool) : YRead (Option Property) := do
  match (← cursor).peek with
  | some '!' => return some (.tag (← scan (scanTag flow)))
  | some '&' => return some (.anchor (← scan (scanAnchorName false)))
  | _ => return none

/-- Up to two properties before a node, a tag and an anchor in either order, and the
separation after them: the tag and the anchor. -/
def readProperties (flow : Bool) : YRead (Option String × Option String) := do
  let put (p : Property) (acc : Option String × Option String) :=
    match p with
    | .tag t => (some t, acc.2)
    | .anchor a => (acc.1, some a)
  match ← readProperty flow with
  | none => return (none, none)
  | some p =>
    separate flow true
    match ← readProperty flow with
    | none => return put p (none, none)
    | some q =>
      separate flow true
      return put q (put p (none, none))

/-- Whether a character can start a plain scalar in a block: not an indicator, except `-`,
`?` and `:` before a non-blank. -/
def startsPlain (c : YCursor) (flow : Bool) : Bool :=
  match c.peek with
  | none => false
  | some ch =>
    if ch == '-' || ch == '?' || ch == ':' then
      !(blankOrEnd (c.peekAt 1) || (flow && (c.peekAt 1).any isFlowIndicator))
    else !(" \t\n,[]\x7b\x7d#&*!|>'\"%@`".toList.contains ch)

/-- A scalar key at the cursor: a scalar on one line followed on that line by `: `. Returns
the key and the cursor on its `:`, or nothing when no key starts here. -/
def keyAt (c : YCursor) (indent : Int) : Except SyntaxError (Option (YamlNode × YCursor)) := do
  let start := c.mark
  let scalar : Option (YamlNode × YCursor) ←
    match c.peek with
    | some '"' => do
      let (v, c') ← scanQuoted false c
      pure (some (.scalar v false none start, c'))
    | some '\'' => do
      let (v, c') ← scanQuoted true c
      pure (some (.scalar v false none start, c'))
    | _ =>
      if startsPlain c false then do
        let (v, endLine, c') ← scanPlain false indent c
        pure (if endLine == start.line then some (.scalar v true none start, c') else none)
      else pure none
  match scalar with
  | none => pure none
  | some (key, c') =>
    let c' := c'.bumpN (c'.rest.takeWhile isBlankChar).length
    pure (if c'.line == start.line && c'.atValue then some (key, c') else none)

/-- The error for a token where a block mapping expects a key. -/
def expectedKey (c : YCursor) (start : Mark) : SyntaxError :=
  if c.atValue then ⟨"mapping values are not allowed in this context", c.mark, none⟩
  else ⟨"did not find expected key", c.mark, some ("while parsing a block mapping", start)⟩

mutual

/-- A node in a block whose indentation is `parent`, the cursor on its first token, with its
properties. `fresh`: the node opens the content of its line (or follows `- `), so a block
collection may start here. -/
def blockNode : Nat → Int → Bool → YRead YamlNode
  | 0, _, _ => exhausted
  | fuel + 1, parent, fresh => do
    let start := (← cursor).mark
    let (tag, anchor) ← readProperties false
    let c ← cursor
    let node ←
      if tag.isNone && anchor.isNone then blockContent fuel parent fresh
      else if c.atEnd then pure (YamlNode.empty start)
      else if c.line == start.line then blockContent fuel parent false
      else if c.atDocMarker || (c.col : Int) ≤ parent then pure (YamlNode.empty start)
      else blockContent fuel parent true
    let node := (node.withTag tag).withMark start
    if let some a := anchor then define a node
    pure node

/-- The content of a block node, after its properties. -/
def blockContent : Nat → Int → Bool → YRead YamlNode
  | 0, _, _ => exhausted
  | fuel + 1, parent, fresh => do
    let c ← cursor
    match c.peek with
    | none => pure (YamlNode.empty c.endMark)
    | some ch =>
      if c.atDocMarker then pure (YamlNode.empty c.mark)
      else if c.atEntry then
        if fresh then blockSeq fuel c.col false c.mark []
        else throw ⟨"block sequence entries are not allowed in this context", c.mark, none⟩
      else if c.atValue then throw ⟨"mapping values are not allowed in this context", c.mark, none⟩
      else if ch == '[' || ch == '{' then flowNode fuel
      else if ch == '|' || ch == '>' then do
        let v ← scan (scanBlockScalar (ch == '|') parent)
        pure (.scalar v false none c.mark)
      else if ch == '*' then aliasNode
      else if ch == '"' || ch == '\'' || startsPlain c false then
        match keyAt c (parent + 1) with
        | .error e => throw e
        | .ok (some _) =>
          if fresh then blockMapping fuel c.col c.mark [] else scalarNode parent
        | .ok none => scalarNode parent
      else if ch == ',' || ch == ']' || ch == '}' || ch == '!' || ch == '&' || ch == '?' then
        throw ⟨"did not find expected node content", c.mark, some ("while parsing a block node", c.mark)⟩
      else throw (cannotStart c.mark)

/-- The entries of a block mapping whose keys start in column `k`, the cursor on a key. -/
def blockMapping : Nat → Nat → Mark → List (YamlNode × YamlNode) → YRead YamlNode
  | 0, _, _, _ => exhausted
  | fuel + 1, k, start, acc => do
    let c ← cursor
    if c.atEntry then throw (expectedKey c start)
    match keyAt c (k + 1) with
    | .error e => throw e
    | .ok none =>
      throw ⟨"could not find expected ':'", c.mark, some ("while scanning a simple key", c.mark)⟩
    | .ok (some (key, atColon)) =>
      setCursor atColon.bump
      separate false true
      let value ← mappingValue fuel k atColon.line
      let acc := (key, value) :: acc
      separate false true
      let c ← cursor
      if c.atEnd || c.atDocMarker || c.col < k then pure (.map acc.reverse start)
      else if c.col == k then blockMapping fuel k start acc
      else throw (expectedKey c start)

/-- The value of a block mapping entry whose keys start in column `k`, the cursor on the
first token after the entry's `:`, which stood on line `colonLine`. -/
def mappingValue : Nat → Nat → Nat → YRead YamlNode
  | 0, _, _ => exhausted
  | fuel + 1, k, colonLine => do
    let c ← cursor
    if c.atEnd then pure (YamlNode.empty c.endMark)
    else if c.atDocMarker then pure (YamlNode.empty c.mark)
    else if c.line == colonLine then blockNode fuel k false
    else if k < c.col then blockNode fuel k true
    else if c.col == k && c.atEntry then blockSeq fuel k true c.mark []
    else pure (YamlNode.empty c.mark)

/-- The entries of a block sequence whose dashes start in column `k`, the cursor on a dash.
An indentless sequence (a mapping value in its key's column) ends at the first token of
that column that is not a dash; any other sequence must go on with a dash there. -/
def blockSeq : Nat → Nat → Bool → Mark → List YamlNode → YRead YamlNode
  | 0, _, _, _, _ => exhausted
  | fuel + 1, k, indentless, start, acc => do
    let dash ← cursor
    setCursor dash.bump
    separate false false
    let c ← cursor
    let item ←
      if c.atEnd then pure (YamlNode.empty c.endMark)
      else if c.atDocMarker then pure (YamlNode.empty c.mark)
      else if c.line == dash.line || k < c.col then blockNode fuel k true
      else pure (YamlNode.empty c.mark)
    let acc := item :: acc
    separate false true
    let c ← cursor
    let done := pure (YamlNode.seq acc.reverse start)
    if c.atEnd || c.atDocMarker || c.col < k then done
    else if c.col == k && c.atEntry then blockSeq fuel k indentless start acc
    else if indentless then done
    else throw ⟨"did not find expected '-' indicator", c.mark,
      some ("while parsing a block sequence", start)⟩

/-- A node inside a flow collection, the cursor on its first token, with its properties. -/
def flowNode : Nat → YRead YamlNode
  | 0 => exhausted
  | fuel + 1 => do
    let start := (← cursor).mark
    let (tag, anchor) ← readProperties true
    let c ← cursor
    let node ← match c.peek with
      | some '[' => flowSeq fuel c.mark
      | some '{' => flowMap fuel c.mark
      | some '"' => do
        let v ← scan (scanQuoted false)
        pure (.scalar v false none start)
      | some '\'' => do
        let v ← scan (scanQuoted true)
        pure (.scalar v false none start)
      | some '*' => aliasNode
      | some ch =>
        if startsPlain c true then do
          let v ← scan (fun c => do
            let (v, _, c') ← scanPlain true 0 c
            pure (v, c'))
          pure (.scalar v true none start)
        else if (tag.isSome || anchor.isSome) && (isFlowIndicator ch || ch == ':') then
          pure (YamlNode.empty start)
        else if ch == '|' || ch == '>' || ch == '%' || ch == '@' || ch == '`' then
          throw (cannotStart c.mark)
        else throw ⟨"did not find expected node content", c.mark,
          some ("while parsing a flow node", c.mark)⟩
      | none => throw ⟨"did not find expected node content", c.endMark,
          some ("while parsing a flow node", c.endMark)⟩
    let node := (node.withTag tag).withMark start
    if let some a := anchor then define a node
    pure node

/-- A flow sequence, the cursor on its `[`. An entry `k: v` is a mapping of one pair; a comma
may follow the last entry. -/
def flowSeq : Nat → Mark → YRead YamlNode
  | 0, _ => exhausted
  | fuel + 1, start => do
    setCursor (← cursor).bump
    flowSeqItems fuel start []

/-- The entries of a flow sequence that started at `start`, the cursor after `[` or a
comma. -/
def flowSeqItems : Nat → Mark → List YamlNode → YRead YamlNode
  | 0, _, _ => exhausted
  | fuel + 1, start, acc => do
    separate true true
    let c ← cursor
    let ctx := some ("while parsing a flow sequence", start)
    if c.peek == some ']' then
      setCursor c.bump
      pure (.seq acc.reverse start)
    else if c.atEnd then throw ⟨"did not find expected ',' or ']'", c.endMark, ctx⟩
    else
      let item ← flowNode fuel
      separate true true
      let c ← cursor
      let item ←
        if c.peek == some ':' then do
          setCursor c.bump
          separate true true
          let c ← cursor
          let value ←
            if c.peek == some ',' || c.peek == some ']' then pure (YamlNode.empty c.mark)
            else flowNode fuel
          separate true true
          pure (YamlNode.map [(item, value)] item.mark)
        else pure item
      let c ← cursor
      match c.peek with
      | some ',' =>
        setCursor c.bump
        flowSeqItems fuel start (item :: acc)
      | some ']' =>
        setCursor c.bump
        pure (.seq (item :: acc).reverse start)
      | _ => throw ⟨"did not find expected ',' or ']'", c.mark, ctx⟩

/-- A flow mapping, the cursor on its `{`. A key without `:` has an empty value; a comma may
follow the last entry. -/
def flowMap : Nat → Mark → YRead YamlNode
  | 0, _ => exhausted
  | fuel + 1, start => do
    setCursor (← cursor).bump
    flowMapEntries fuel start []

/-- The entries of a flow mapping that started at `start`, the cursor after `{` or a comma. -/
def flowMapEntries : Nat → Mark → List (YamlNode × YamlNode) → YRead YamlNode
  | 0, _, _ => exhausted
  | fuel + 1, start, acc => do
    separate true true
    let c ← cursor
    let ctx := some ("while parsing a flow mapping", start)
    if c.peek == some '}' then
      setCursor c.bump
      pure (.map acc.reverse start)
    else if c.atEnd then throw ⟨"did not find expected ',' or '\x7d'", c.endMark, ctx⟩
    else
      let key ← if c.peek == some ':' then pure (YamlNode.empty c.mark) else flowNode fuel
      separate true true
      let c ← cursor
      let value ←
        if c.peek == some ':' then do
          setCursor c.bump
          separate true true
          let c ← cursor
          if c.peek == some ',' || c.peek == some '}' then pure (YamlNode.empty c.mark)
          else flowNode fuel
        else pure (YamlNode.empty c.mark)
      separate true true
      let c ← cursor
      match c.peek with
      | some ',' =>
        setCursor c.bump
        flowMapEntries fuel start ((key, value) :: acc)
      | some '}' =>
        setCursor c.bump
        pure (.map ((key, value) :: acc).reverse start)
      | _ => throw ⟨"did not find expected ',' or '\x7d'", c.mark, ctx⟩

/-- An alias, the cursor on its `*`: the node its anchor names. -/
def aliasNode : YRead YamlNode := do
  let c ← cursor
  let name ← scan (scanAnchorName true)
  match ← lookup name with
  | some n => pure n
  | none => throw ⟨"unknown anchor", c.mark, none⟩

/-- A quoted or plain scalar in a block whose indentation is `parent`. -/
def scalarNode (parent : Int) : YRead YamlNode := do
  let c ← cursor
  match c.peek with
  | some '"' => do
    let v ← scan (scanQuoted false)
    pure (.scalar v false none c.mark)
  | some '\'' => do
    let v ← scan (scanQuoted true)
    pure (.scalar v false none c.mark)
  | _ => do
    let v ← scan (fun c => do
      let (v, _, c') ← scanPlain false (parent + 1) c
      pure (v, c'))
    pure (.scalar v true none c.mark)

end

/-- Skip directive lines (`%` in the first column) before a document. -/
def skipDirectives : Nat → YRead Bool
  | 0 => pure false
  | fuel + 1 => do
    let c ← cursor
    if c.col == 0 && c.peek == some '%' then
      setCursor (skipToBreak c.budget c)
      separate false false
      let _ ← skipDirectives fuel
      pure true
    else pure false

/-- Skip document end markers (`...`). -/
def skipDocumentEnds : Nat → YRead Unit
  | 0 => pure ()
  | fuel + 1 => do
    let c ← cursor
    if c.atDocMarker && c.peek == some '.' then
      setCursor (c.bumpN 3)
      separate false true
      skipDocumentEnds fuel
    else pure ()

/-- The first document of a stream, the cursor at its start: its root node (none when the
stream holds no document) and whether anything follows the document. -/
def readFirstDocument (fuel : Nat) : YRead (Option YamlNode × Bool) := do
  separate false false
  let hadDirectives ← skipDirectives fuel
  let c ← cursor
  if c.atEnd && !hadDirectives then return (none, false)
  let explicit := c.atDocMarker && c.peek == some '-'
  if !explicit && (hadDirectives || c.atDocMarker) then
    if hadDirectives then throw ⟨"did not find expected <document start>", c.mark, none⟩
    else throw ⟨"did not find expected node content", c.mark,
      some ("while parsing a block node", c.mark)⟩
  let node ←
    if explicit then do
      setCursor (c.bumpN 3)
      separate false true
      let d ← cursor
      if d.atEnd then pure (YamlNode.empty d.endMark)
      else if d.atDocMarker then pure (YamlNode.empty d.mark)
      else blockNode fuel (-1) (d.line != c.line)
    else blockNode fuel (-1) true
  separate false true
  skipDocumentEnds fuel
  return (some node, !(← cursor).atEnd)

/-- The first document of a YAML text and whether anything follows it. A character that a
YAML text may not hold is an error before anything is read. -/
def readDocument (s : String) : Except SyntaxError (Option YamlNode × Bool) :=
  match firstDisallowed s.toList 0 with
  | some off =>
    .error ⟨"control characters are not allowed" ++
      (if off == 0 then "" else " at position " ++ Binary.natText off), Mark.origin, none⟩
  | none =>
    let c := YCursor.ofString s
    (readFirstDocument (8 * c.budget + 64)).run' ⟨c, []⟩

end PointerAccel.Yaml
