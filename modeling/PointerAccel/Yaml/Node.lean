import PointerAccel.Binary.Render

/-!
# YAML documents as trees

A YAML document is read into a `YamlNode`: a scalar, a sequence or a mapping, each with the
place where it starts. A scalar remembers whether it was written plain (unquoted), since
only plain scalars stand for numbers, booleans and null, and the tag it carried, if any.

Places are zero-based lines and columns counted in characters, and are shown one-based as
`line L column C`. A syntax error names its problem, where it was found and, when there is
one, the construct being read and where that started.
-/

namespace PointerAccel.Yaml

open PointerAccel.Binary

/-- A place in a YAML text: zero-based line and character column. -/
structure Mark where
  line : Nat
  col : Nat
  deriving DecidableEq

/-- The start of the text. -/
def Mark.origin : Mark := ⟨0, 0⟩

/-- Whether a mark is past the start of the text; marks at the start are not printed. -/
def Mark.isPlaced (m : Mark) : Bool := m.line != 0 || m.col != 0

/-- `line L column C`, one-based. -/
def Mark.text (m : Mark) : String :=
  "line " ++ natText (m.line + 1) ++ " column " ++ natText (m.col + 1)

/-- ` at line L column C` for a placed mark, nothing for the start of the text. -/
def Mark.suffix (m : Mark) : String := if m.isPlaced then " at " ++ m.text else ""

/-- The tag of the core schema that `!!name` stands for. -/
def coreTag (name : String) : String := "tag:yaml.org,2002:" ++ name

/-- A node of a YAML document. -/
inductive YamlNode where
  | scalar (value : String) (plain : Bool) (tag : Option String) (mark : Mark)
  | seq (items : List YamlNode) (mark : Mark)
  | map (entries : List (YamlNode × YamlNode)) (mark : Mark)

namespace YamlNode

/-- Where a node starts. -/
def mark : YamlNode → Mark
  | .scalar _ _ _ m => m
  | .seq _ m => m
  | .map _ m => m

/-- The empty plain scalar, which stands for a missing node. -/
def empty (m : Mark) : YamlNode := .scalar "" true none m

/-- Give a node a tag, when it is a scalar. -/
def withTag (tag : Option String) : YamlNode → YamlNode
  | .scalar v p t m => .scalar v p (tag.orElse (fun _ => t)) m
  | n => n

/-- Move a node's start to an earlier mark (where its properties began). -/
def withMark (m : Mark) : YamlNode → YamlNode
  | .scalar v p t _ => .scalar v p t m
  | .seq xs _ => .seq xs m
  | .map es _ => .map es m

end YamlNode

/-- A syntax error: the problem and where it was found, and the construct being read. -/
structure SyntaxError where
  problem : String
  mark : Mark
  context : Option (String × Mark) := none

/-- The message of a syntax error: the problem and its place, then the construct being read
and its place when that differs. -/
def SyntaxError.message (e : SyntaxError) : String :=
  let head := e.problem ++ e.mark.suffix
  match e.context with
  | none => head
  | some (what, at_) =>
    head ++ ", " ++ what ++ (if at_.isPlaced && at_ ≠ e.mark then " at " ++ at_.text else "")

end PointerAccel.Yaml
