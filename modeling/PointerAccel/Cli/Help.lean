import PointerAccel.Cli.Usage
import PointerAccel.Text.Trim

/-!
# Help pages

A help page is the command's description, a blank line, its full usage line, and then up to
three sections, `Commands`, `Arguments` and `Options`, separated by blank lines. A leading
blank line is dropped and trailing white space is trimmed to one final line break.

In a section each entry is indented by two columns, and the descriptions of a section are
aligned two columns after its widest entry. An option is written `-c, --config <CONFIG>`,
or with four blanks in place of a missing short switch. After an argument's description
come its environment variable, with the variable's current value, and its default.

The long page (from `--help` on a command with a long description) uses the long
description and puts each argument's description on its own line, ten columns in, with a
blank line between arguments. Commands are listed the same way in both pages.
-/

namespace PointerAccel.Cli

open PointerAccel.Text

/-- `n` blanks. -/
def blanks (n : Nat) : String := String.ofList (List.replicate n ' ')

/-- The value of an environment variable, if it is set. -/
def envLookup (env : List (String × String)) (name : String) : Option String :=
  (env.find? (·.1 == name)).map (·.2)

/-- Drop the first line of a text when it is blank. -/
def dropBlankFirstLine (s : String) : String :=
  let cs := s.toList
  match cs.span (· != '\n') with
  | (first, _ :: rest) => if first.all isUnicodeSpace then String.ofList rest else s
  | _ => s

/-- Drop trailing white space. -/
def trimEnd (s : String) : String :=
  String.ofList ((s.toList.reverse.dropWhile isUnicodeSpace).reverse)

/-- Put `pad` after every line break of a text, so that continuation lines line up. -/
def indentLines (pad : String) (s : String) : String :=
  String.intercalate ("\n" ++ pad) (s.splitOn "\n")

namespace ArgSpec

/-- The key that orders options in help: the rank, then the short switch in lower case
(followed by `0` for a lower-case switch and `1` for an upper-case one), else the long
switch, else the id. -/
def sortKey (a : ArgSpec) : Nat × String :=
  (a.rank, match a.short, a.long with
    | some s, _ => String.singleton s.toLower ++ (if s.isLower then "0" else "1")
    | none, some l => l
    | none, none => "\x7b" ++ a.id)

/-- Whether `a` is listed before `b`. -/
def listedBefore (a b : ArgSpec) : Bool :=
  let ka := a.sortKey
  let kb := b.sortKey
  ka.1 < kb.1 || (ka.1 == kb.1 && decide (ka.2 < kb.2))

/-- The entry of an argument in a help section: its switches and value placeholder. -/
def helpLabel (a : ArgSpec) : String :=
  if a.positional then a.suffix
  else
    let short := match a.short with
      | some s => "-" ++ String.singleton s
      | none => if a.long.isSome then "    " else ""
    let long := match a.long with
      | some l => (if a.short.isSome then ", " else "") ++ "--" ++ l
      | none => ""
    short ++ long ++ a.suffix

/-- The environment variable and default of an argument, as shown after its description. -/
def specText (a : ArgSpec) (env : List (String × String)) (long : Bool) : String :=
  let envPart := a.env.map fun name =>
    "[env: " ++ name ++ "=" ++ (envLookup env name).getD "" ++ "]"
  let defaultPart := a.defaultText.map fun d => "[default: " ++ d ++ "]"
  String.intercalate (if long then "\n" else " ") (envPart.toList ++ defaultPart.toList)

/-- The description of an argument followed by its environment variable and default. -/
def helpText (a : ArgSpec) (env : List (String × String)) (long : Bool) : String :=
  let about := if long then a.longHelp.getD a.help else a.help
  let spec := a.specText env long
  if spec.isEmpty then about
  else if about.isEmpty then spec
  else about ++ (if long then "\n\n" else " ") ++ spec

end ArgSpec

/-- The width a section's entries are aligned to: its widest entry, and at least two. -/
def sectionWidth (labels : List String) : Nat := labels.foldl (fun w l => max w l.length) 2

/-- One section of arguments, in the short or long layout. -/
def argSection (args : List ArgSpec) (env : List (String × String)) (long : Bool) : String :=
  let width := sectionWidth (args.map ArgSpec.helpLabel)
  let row (a : ArgSpec) : String :=
    let label := a.helpLabel
    if long then
      "  " ++ label ++ "\n" ++ blanks 10 ++ indentLines (blanks 10) (a.helpText env true)
    else
      "  " ++ label ++ blanks (width + 2 - label.length) ++
        indentLines (blanks (width + 4)) (a.helpText env false)
  String.intercalate (if long then "\n\n" else "\n") (args.map row)

/-- The section listing the subcommands of a command. -/
def commandSection (c : CommandSpec) : String :=
  let subs := c.subcommands.map CommandId.spec
  let width := sectionWidth (subs.map (·.name))
  String.intercalate "\n" (subs.map fun s =>
    "  " ++ s.name ++ blanks (width + 2 - s.name.length) ++ s.about)

/-- The sections of a help page. -/
def helpSections (c : CommandSpec) (env : List (String × String)) (long : Bool) : List String :=
  let opts := c.options.mergeSort fun a b => !b.listedBefore a
  (if c.subcommands.isEmpty then [] else ["Commands:\n" ++ commandSection c]) ++
  (if c.positionals.isEmpty then [] else ["Arguments:\n" ++ argSection c.positionals env long]) ++
  (if opts.isEmpty then [] else ["Options:\n" ++ argSection opts env long])

/-- The help page of a command; `long` asks for the long page, which is given only when the
command has one. -/
def helpPage (c : CommandSpec) (env : List (String × String)) (long : Bool) : String :=
  let long := long && c.hasLongHelp
  let about := if long then c.longAbout.getD c.about else c.about
  let text := about ++ "\n\n" ++ "Usage: " ++ c.fullUsage ++ "\n\n" ++
    String.intercalate "\n\n" (helpSections c env long)
  trimEnd (dropBlankFirstLine text) ++ "\n"

/-- The version line. -/
def versionText : String := programName ++ " " ++ programVersion ++ "\n"

end PointerAccel.Cli
