import PointerAccel.Cli.Usage

/-!
# Command-line errors

When the command line cannot be read, the program prints what is wrong and exits with
status 2. The text is

    error: <what is wrong>
    <blank line, then one "  tip: ..." line per suggestion, if any>
    <blank line, then the usage line, if the error has one>
    <blank line, then "For more information, try '--help'.", if the command has --help>

Each constructor below is one kind of error, with its wording and the usage line it carries.
-/

namespace PointerAccel.Cli

/-- A refusal of the command line. -/
structure Diagnostic where
  message : String
  tips : List String
  usage : Option String
  /-- The flag that shows help for the command the error is about, if it has one. -/
  helpFlag : Option String

/-- The text of a refusal, ending with a line break. -/
def Diagnostic.text (d : Diagnostic) : String :=
  "error: " ++ d.message ++
  (if d.tips.isEmpty then "" else "\n" ++ String.join (d.tips.map ("\n  tip: " ++ ·))) ++
  (match d.usage with
    | some u => "\n\n" ++ u
    | none => "") ++
  (match d.helpFlag with
    | some h => "\n\nFor more information, try '" ++ h ++ "'.\n"
    | none => "\n")

/-- The flag that shows a command's help: `--help`, or `help` for a command with
subcommands but no help switch. -/
def CommandSpec.helpFlag (c : CommandSpec) : Option String :=
  if c.args.any (·.action == .help) then some "--help"
  else if c.subcommands.isEmpty then none
  else some "help"

/-- Quote each name and join them with commas. -/
def quotedList (names : List String) : String :=
  ", ".intercalate (names.map fun n => "'" ++ n ++ "'")

/-- The tip naming similar names of some kind (`subcommand`, `argument`). -/
def similarTip (kind : String) (names : List String) : String :=
  match names with
  | [n] => "a similar " ++ kind ++ " exists: '" ++ n ++ "'"
  | _ => "some similar " ++ kind ++ "s exist: " ++ quotedList names

/-- The tip for a word that looks like a switch but was meant as a value. -/
def asValueTip (lead : String) (word : String) : String :=
  "to pass '" ++ word ++ "' as a value, use '" ++ lead ++ "-- " ++ word ++ "'"

namespace Diagnostic

/-- A word in the place of a subcommand that names none. -/
def unrecognizedSubcommand (c : CommandSpec) (word : String) : Diagnostic :=
  ⟨"unrecognized subcommand '" ++ word ++ "'", [], some (c.usageLine []), c.helpFlag⟩

/-- A word in the place of a subcommand that resembles some. -/
def invalidSubcommand (c : CommandSpec) (word : String) (similar : List String)
    (asValue : Bool) : Diagnostic :=
  ⟨"unrecognized subcommand '" ++ word ++ "'",
    [similarTip "subcommand" similar] ++
      (if asValue then [asValueTip (c.usageName ++ " ") word] else []),
    some (c.usageLine []), c.helpFlag⟩

/-- An argument the command does not have. `similar` is a switch of the command that
resembles it; `elsewhere` is a subcommand given later on the line that has the switch. -/
def unknownArgument (c : CommandSpec) (word : String) (similar : Option String)
    (asValue : Bool) (elsewhere : Option (String × String)) (usage : String) : Diagnostic :=
  ⟨"unexpected argument '" ++ word ++ "' found",
    (similar.map (similarTip "argument" [·])).toList ++
      (if asValue then [asValueTip "" word] else []) ++
      (elsewhere.map fun (flag, sub) => "'" ++ sub ++ " " ++ flag ++ "' exists").toList,
    some usage, c.helpFlag⟩

/-- A subcommand name written after `--`, where only values are read. -/
def subcommandAfterEscape (c : CommandSpec) (word : String) : Diagnostic :=
  ⟨"unexpected argument '" ++ word ++ "' found",
    ["subcommand '" ++ word ++ "' exists; to use it, remove the '--' before it"],
    some (c.usageLine []), c.helpFlag⟩

/-- Required arguments that were not given, as they are displayed. -/
def missingRequired (c : CommandSpec) (missing : List String) (usage : String) : Diagnostic :=
  ⟨"the following required arguments were not provided:" ++
    String.join (missing.map ("\n  " ++ ·)), [], some usage, c.helpFlag⟩

/-- A command that needs a subcommand and was given none. -/
def missingSubcommand (c : CommandSpec) : Diagnostic :=
  ⟨"'" ++ c.usageName ++ "' requires a subcommand but one was not provided" ++
    "\n  [subcommands: " ++ ", ".intercalate (c.subcommands.map (·.spec.name)) ++ "]",
    [], some (c.usageLine []), c.helpFlag⟩

/-- An option given without its value, or with an empty one where none is allowed. -/
def emptyValue (c : CommandSpec) (arg : String) : Diagnostic :=
  ⟨"a value is required for '" ++ arg ++ "' but none was supplied", [], none, c.helpFlag⟩

/-- A value that does not read as what the option takes. -/
def invalidValue (c : CommandSpec) (arg value reason : String) : Diagnostic :=
  ⟨"invalid value '" ++ value ++ "' for '" ++ arg ++ "': " ++ reason, [], none, c.helpFlag⟩

/-- An argument given twice that may be given once. -/
def givenTwice (c : CommandSpec) (arg : String) : Diagnostic :=
  ⟨"the argument '" ++ arg ++ "' cannot be used multiple times", [], some (c.usageLine []),
    c.helpFlag⟩

/-- A value attached with `=` to a switch that takes none. -/
def unexpectedValue (c : CommandSpec) (value arg : String) (usage : String) : Diagnostic :=
  ⟨"unexpected value '" ++ value ++ "' for '" ++ arg ++ "' found; no more were expected", [],
    some usage, c.helpFlag⟩

end Diagnostic

end PointerAccel.Cli
