/-!
# The command line of `accelctl`

The program takes global options (`--json`, `-v`), then one command: `defaults`, `check`,
`curve`, `replay`, or `help`. Each command is described here as data: its name, the one-line
description shown in help, and its arguments, each with its switches, what it does when
given, its value placeholder, help text, environment variable and default. Help pages,
usage lines and error messages are all computed from this table.

The global options belong to every command; each command also has `-h`/`--help`, and the
top level `-V`/`--version`. Arguments are listed in help by their declared rank and then by
switch, so the global options, whose ranks come from the top level, fall among a command's
own options.
-/

namespace PointerAccel.Cli

/-- What the value of an option is read as. -/
inductive ValueKind where
  /-- A file path; an empty path is refused. -/
  | path
  /-- A single-precision float in the decimal float grammar. -/
  | single
  /-- A count: decimal digits with an optional `+`, below `2 ^ 64`. -/
  | size
  deriving DecidableEq

/-- What an argument does when it is given. -/
inductive ArgAction where
  /-- Set to true; given twice it is an error. -/
  | flag
  /-- Count the occurrences. -/
  | count
  /-- Take one value; given twice it is an error. -/
  | value (kind : ValueKind)
  /-- Show the help page. -/
  | help
  /-- Show the version. -/
  | version
  deriving DecidableEq

/-- An argument of a command. -/
structure ArgSpec where
  id : String
  short : Option Char
  long : Option String
  action : ArgAction
  /-- The placeholder of its value, such as `CONFIG`. -/
  placeholder : String
  positional : Bool
  required : Bool
  /-- Whether a positional argument takes any number of values. -/
  many : Bool
  help : String
  /-- The help text of the long help page, when it differs. -/
  longHelp : Option String
  /-- The environment variable that supplies a missing value. -/
  env : Option String
  /-- The default value, as shown in help. -/
  defaultText : Option String
  /-- Whether a value may start with `-` when it reads as a negative number. -/
  negativeNumbers : Bool
  /-- The rank of the argument in help listings. -/
  rank : Nat

/-- An option with a switch and no value. -/
def switchArg (id : String) (short : Option Char) (long : String) (action : ArgAction)
    (help : String) (rank : Nat) : ArgSpec :=
  ⟨id, short, some long, action, "", false, false, false, help, none, none, none, false, rank⟩

/-- An option taking a value. -/
def valueArg (id : String) (short : Option Char) (long : String) (kind : ValueKind)
    (help : String) (rank : Nat) : ArgSpec :=
  ⟨id, short, some long, .value kind, id.toUpper, false, false, false, help, none, none, none,
    false, rank⟩

/-- A positional argument. -/
def positionalArg (id : String) (placeholder : String) (required many : Bool) (help : String) :
    ArgSpec :=
  ⟨id, none, none, .value .path, placeholder, true, required, many, help, none, none, none,
    false, 0⟩

/-- The rank of arguments that a command adds by itself (help and version). -/
def lastRank : Nat := 999

/-- `--json`, shared by all commands. -/
def jsonArg : ArgSpec := switchArg "json" none "json" .flag "Output in JSON format for machine parsing" 0

/-- `-v`, shared by all commands. -/
def verboseArg : ArgSpec := switchArg "verbose" (some 'v') "verbose" .count "Verbose logging" 1

/-- `-h`, for a command without a long help page. -/
def helpArg : ArgSpec := switchArg "help" (some 'h') "help" .help "Print help" lastRank

/-- `-h`, for a command with a long help page. -/
def helpArgLong : ArgSpec :=
  { switchArg "help" (some 'h') "help" .help "Print help (see more with '--help')" lastRank with
    longHelp := some "Print help (see a summary with '-h')" }

/-- `-V`. -/
def versionArg : ArgSpec := switchArg "version" (some 'V') "version" .version "Print version" lastRank

/-- The environment variable naming a parameter file. -/
def configEnv : String := "ACCELCTL_CONFIG"

/-- `-c`/`--config` of `curve` and `replay`, at a given rank. -/
def configOption (rank : Nat) : ArgSpec :=
  { valueArg "config" (some 'c') "config" .path "Parameter file; defaults are used when omitted" rank
    with env := some configEnv }

/-- The commands of the program. -/
inductive CommandId where
  | top
  | defaults
  | check
  | curve
  | replay
  | helpCommand
  deriving DecidableEq

/-- A command: its name, the name its usage line starts with, its descriptions, arguments
and subcommands. -/
structure CommandSpec where
  name : String
  usageName : String
  about : String
  longAbout : Option String
  args : List ArgSpec
  subcommands : List CommandId

/-- The program's name. -/
def programName : String := "accelctl"

/-- The program's version. -/
def programVersion : String := "0.1.0"

/-- The long description of the program, shown by `--help`. -/
def programLongAbout : String :=
  "\naccelctl drives the mouseaccel engine outside the input path.\n" ++
  "It prints the compiled-in parameters, checks parameter files, tabulates\n" ++
  "gain curves and replays JSON Lines motion captures sample by sample.\n\n" ++
  "Use --json flag for machine-readable output suitable for scripting.\n"

/-- A command of the program with the shared options and help. -/
def subcommandSpec (name about : String) (own : List ArgSpec) : CommandSpec :=
  ⟨name, programName ++ " " ++ name, about, none, own ++ [jsonArg, verboseArg, helpArg], []⟩

/-- The description of each command. -/
def CommandId.spec : CommandId → CommandSpec
  | .top =>
    ⟨programName, programName,
      "mouseaccel CLI - preview acceleration curves and replay motion captures",
      some programLongAbout, [jsonArg, verboseArg, helpArgLong, versionArg],
      [.defaults, .check, .curve, .replay, .helpCommand]⟩
  | .defaults => subcommandSpec "defaults" "Print the compiled-in parameter set" []
  | .check =>
    subcommandSpec "check" "Validate a parameter file and print the resulting set"
      [positionalArg "config" "CONFIG" true false "Parameter file (.json, .yaml or .yml)"]
  | .curve =>
    subcommandSpec "curve" "Tabulate gain over a range of rates"
      [configOption 0,
       { valueArg "from" none "from" .single "First rate (counts per millisecond, after offset)" 1
         with defaultText := some "0", negativeNumbers := true },
       { valueArg "to" none "to" .single "Last rate" 2
         with defaultText := some "50", negativeNumbers := true },
       { valueArg "steps" none "steps" .size "Number of samples, endpoints included" 3
         with defaultText := some "11" }]
  | .replay =>
    subcommandSpec "replay" "Replay a JSON Lines motion capture through the engine"
      [{ valueArg "input" (some 'i') "input" .path "Capture file" 0 with required := true },
       configOption 1]
  | .helpCommand =>
    ⟨"help", programName ++ " help", "Print this message or the help of the given subcommand(s)",
      none, [positionalArg "subcommand" "COMMAND" false true "Print help for the subcommand(s)"], []⟩

/-- The subcommand of a command with a given name. -/
def CommandId.find? (c : CommandId) (name : String) : Option CommandId :=
  c.spec.subcommands.find? fun s => s.spec.name == name

/-- Whether a command has a long help page (a long description, or an argument with long
help). -/
def CommandSpec.hasLongHelp (c : CommandSpec) : Bool :=
  c.longAbout.isSome || c.args.any fun a => a.longHelp.isSome && a.action != .help

namespace ArgSpec

/-- Whether the argument takes a value. -/
def takesValue (a : ArgSpec) : Bool :=
  match a.action with
  | .value _ => true
  | _ => false

/-- The placeholder of a positional argument: `<NAME>` when it is shown as required, `[NAME]`
when not or when it may be given no value at all, followed by `...` when it takes many
values. -/
def positionalText (a : ArgSpec) (required : Bool) : String :=
  (if required && !a.many then "<" ++ a.placeholder ++ ">" else "[" ++ a.placeholder ++ "]") ++
    (if a.many then "..." else "")

/-- What follows an argument's switch: ` <NAME>` for an option's value, `...` for a counted
switch, the placeholder itself for a positional argument. -/
def suffix (a : ArgSpec) : String :=
  if a.positional then a.positionalText a.required
  else match a.action with
    | .value _ => " <" ++ a.placeholder ++ ">"
    | .count => "..."
    | _ => ""

/-- The argument as it is named in messages: its long switch (or short one) and suffix. -/
def display (a : ArgSpec) : String :=
  let switch := match a.long, a.short with
    | some l, _ => "--" ++ l
    | none, some s => "-" ++ String.singleton s
    | none, none => ""
  switch ++ a.suffix

end ArgSpec

end PointerAccel.Cli
