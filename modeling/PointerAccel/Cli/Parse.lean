import PointerAccel.Cli.Help
import PointerAccel.Cli.Diagnostic
import PointerAccel.Cli.Values
import PointerAccel.Cli.Similar

/-!
# Reading the command line

The words are read from the left. At the top level a word naming a command starts that
command, which reads the rest of the line; `help` instead shows the help page of the
commands named after it. Within a command:

* `--name` is a long switch and `--name=value` gives its value in the same word;
* `-abc` is a run of short switches; a short option takes the rest of the word (after an
  optional `=`) as its value, or else the next word;
* after an option that takes a value, the next word is that value, unless it looks like a
  switch (a number such as `-5` is a value for the options that accept negative numbers);
* `--` ends the switches: every later word is a positional value;
* anything else is the next positional argument.

A value is checked when the next switch or positional argument is met, or at the end of the
line; an option given twice, a value that does not read, a missing required argument and an
unknown switch are errors. At the end of a command the environment fills in options that
were not given, then defaults fill in the rest.

The outcome is the task to run, or a page to show instead: a help page or the version on
standard output, or an error on standard error.
-/

namespace PointerAccel.Cli

open PointerAccel.Binary

/-- The environment: variable names and values. -/
abbrev Env := List (String × String)

/-- Where the values of a matched argument came from. -/
inductive ValueSource where
  | commandLine
  | environment
  | defaultValue
  deriving DecidableEq

/-- An argument matched so far, with its values. -/
structure Matched where
  id : String
  source : ValueSource
  values : List String

/-- The state of reading the words of one command. -/
structure Reading where
  /-- The matched arguments, in the order they were last given. -/
  matched : List Matched
  /-- The argument whose values are being collected, and the values so far. -/
  pending : Option (String × List String)
  /-- The option that takes the next word as its value. -/
  expecting : Option String
  /-- The index of the next positional argument. -/
  position : Nat
  /-- Whether `--` was seen. -/
  escaped : Bool

namespace Reading

/-- Nothing read yet. -/
def start : Reading := ⟨[], none, none, 0, false⟩

/-- Whether an argument was matched. -/
def has (st : Reading) (id : String) : Bool := st.matched.any (·.id == id)

/-- Forget a matched argument. -/
def drop (st : Reading) (id : String) : Reading :=
  { st with matched := st.matched.filter (·.id != id) }

/-- Match an argument afresh, after every other. -/
def put (st : Reading) (m : Matched) : Reading :=
  { st with matched := (st.drop m.id).matched ++ [m] }

/-- Note an argument as given on the command line, keeping its place if it already was. -/
def touch (st : Reading) (id : String) : Reading :=
  if st.has id then st else { st with matched := st.matched ++ [⟨id, .commandLine, []⟩] }

/-- The arguments given explicitly (on the line or by the environment), in order. -/
def explicit (st : Reading) : List String :=
  (st.matched.filter (·.source != .defaultValue)).map (·.id)

/-- The first value of an argument. -/
def valueOf? (st : Reading) (id : String) : Option String :=
  (st.matched.find? (·.id == id)).bind (·.values.head?)

/-- The values collected for an argument. -/
def pendingFor (st : Reading) (id : String) : List String :=
  match st.pending with
  | some (p, vs) => if p == id then vs else []
  | none => []

/-- Settle the collected values without checking them, as is done before reporting an
unknown argument: an argument with no value is dropped, one given twice is forgotten, and
any other is matched whether or not its value reads. -/
def settle (st : Reading) : Reading :=
  match st.pending with
  | none => st
  | some (id, vals) =>
    let st := { st with pending := none }
    if vals.isEmpty then st
    else if st.has id then st.drop id
    else st.put ⟨id, .commandLine, vals⟩

end Reading

/-- Why reading stopped without a task. -/
inductive Halt where
  /-- A help page or the version, for standard output. -/
  | shown (text : String)
  /-- An error or a help page, for standard error with exit status 2. -/
  | refused (text : String)

/-- Stop with an error. -/
def refuse (d : Diagnostic) : Halt := .refused d.text

namespace CommandSpec

/-- The argument with a long switch. -/
def findLong? (c : CommandSpec) (name : String) : Option ArgSpec :=
  c.args.find? (·.long == some name)

/-- The argument with a short switch. -/
def findShort? (c : CommandSpec) (ch : Char) : Option ArgSpec :=
  c.args.find? (·.short == some ch)

/-- The long switches, in the order they are looked up. -/
def longs (c : CommandSpec) : List String := c.args.filterMap (·.long)

end CommandSpec

/-- The first value that an option refuses, with the reason. -/
def firstProblem (k : ValueKind) : List String → Option (String × ValueProblem)
  | [] => none
  | v :: vs => match k.check v with
    | some p => some (v, p)
    | none => firstProblem k vs

/-- Record an argument and its values. `long` tells whether help was asked for with the long
switch. -/
def store (cmd : CommandId) (env : Env) (long : Bool) (a : ArgSpec) (source : ValueSource)
    (vals : List String) (st : Reading) : Except Halt Reading :=
  let c := cmd.spec
  if source == .commandLine && a.takesValue && vals.isEmpty then
    .error (refuse (.emptyValue c a.display))
  else match a.action with
  | .value k =>
    if st.has a.id then .error (refuse (.givenTwice c a.display))
    else match firstProblem k vals with
      | some (_, .missing) => .error (refuse (.emptyValue c a.display))
      | some (v, .invalid reason) => .error (refuse (.invalidValue c a.display v reason))
      | none => .ok (st.put ⟨a.id, source, vals⟩)
  | .flag =>
    if st.has a.id then .error (refuse (.givenTwice c a.display))
    else .ok (st.put ⟨a.id, source, if vals.isEmpty then ["true"] else vals⟩)
  | .count =>
    let n := ((st.valueOf? a.id).bind String.toNat?).getD 0
    .ok (st.put ⟨a.id, source, if vals.isEmpty then [toString (n + 1)] else vals⟩)
  | .help => .error (.shown (helpPage c env long))
  | .version => .error (.shown versionText)

/-- Check and record the collected values, if any. -/
def resolvePending (cmd : CommandId) (env : Env) (st : Reading) : Except Halt Reading :=
  match st.pending with
  | none => .ok st
  | some (id, vals) =>
    let st := { st with pending := none }
    match cmd.spec.findArg? id with
    | some a => store cmd env false a .commandLine vals st
    | none => .ok st

/-- Record an argument given on the command line, after the collected values. -/
def react (cmd : CommandId) (env : Env) (long : Bool) (a : ArgSpec) (vals : List String)
    (st : Reading) : Except Halt Reading := do
  let st ← resolvePending cmd env st
  store cmd env long a .commandLine vals st

/-- Start collecting the value of an option given without one. -/
def expectValue (cmd : CommandId) (env : Env) (a : ArgSpec) (st : Reading) :
    Except Halt Reading := do
  let st ← resolvePending cmd env st
  pure { st with pending := some (a.id, []), expecting := some a.id }

/-- Whether the text after a `-` reads as a number: digits, at most one `.` (not first and
before any exponent) and at most one `e` or `E` (not first and not last). -/
def numericFrom : List Char → Nat → Bool → Option Nat → Bool
  | [], n, _, e => match e with
    | some i => i + 1 != n
    | none => true
  | ch :: rest, i, dot, e =>
    if ch.isDigit then numericFrom rest (i + 1) dot e
    else if ch == '.' && !dot && e.isNone && i > 0 then numericFrom rest (i + 1) true e
    else if (ch == 'e' || ch == 'E') && e.isNone && i > 0 then numericFrom rest (i + 1) dot (some i)
    else false

/-- Whether a word after `-` is a negative number. -/
def looksNumeric (cs : List Char) : Bool := numericFrom cs 0 false none

/-- A switch of the command resembling `name`, or else a switch of a subcommand named later
on the line (the earliest such) together with that subcommand's name. -/
def suggestSwitch (c : CommandSpec) (name : String) (later : List String) :
    Option (String × Option String) :=
  match (similarNames name c.longs).getLast? with
  | some s => some (s, none)
  | none =>
    let found := c.subcommands.filterMap fun sub =>
      match (similarNames name sub.spec.longs).getLast?, later.idxOf? sub.spec.name with
      | some s, some i => some (i, s, sub.spec.name)
      | _, _ => none
    let best := found.foldl (fun (acc : Option (Nat × String × String)) x =>
      match acc with
      | some y => if x.1 < y.1 then some x else some y
      | none => some x) none
    best.map fun (_, s, sub) => (s, some sub)

/-- The error for an unknown long switch, with a similar switch if there is one. -/
def unknownLong (cmd : CommandId) (st : Reading) (name : String) (later : List String) : Halt :=
  let c := cmd.spec
  let suggestion := suggestSwitch c name later
  let st := st.settle
  let st := match suggestion with
    | some (s, none) => match c.findLong? s with
      | some a => st.touch a.id
      | none => st
    | _ => st
  let used := st.explicit.filter fun id => !c.requiredIds.contains id
  let similar := suggestion.bind fun (s, sub) => if sub.isNone then some ("--" ++ s) else none
  let elsewhere := suggestion.bind fun (s, sub) => sub.map fun n => ("--" ++ s, n)
  let asValue := suggestion.isNone && !st.escaped && !c.positionals.isEmpty
  refuse (.unknownArgument c ("--" ++ name) similar asValue elsewhere (c.usageLine used))

/-- The error for a word that is neither an argument of the command nor a subcommand. -/
def strayWord (cmd : CommandId) (st : Reading) (word : String) : Halt :=
  let c := cmd.spec
  if st.escaped && (cmd.find? word).isSome then refuse (.subcommandAfterEscape c word)
  else
    let switchLike := word.startsWith "-" && word != "-" && word != "--"
    let asValue := !st.escaped && !c.positionals.isEmpty && switchLike
    let unknown := refuse (.unknownArgument c word none asValue none (c.usageLine []))
    if c.subcommands.isEmpty then unknown
    else
      let similar := similarNames word (c.subcommands.map (·.spec.name))
      if !similar.isEmpty then refuse (.invalidSubcommand c word similar asValue)
      else if c.positionals.isEmpty then refuse (.unrecognizedSubcommand c word)
      else unknown

/-- Take a word as the next positional value. -/
def takePositional (cmd : CommandId) (env : Env) (w : String) (st : Reading) :
    Except Halt Reading :=
  match cmd.spec.positionals[st.position]? with
  | some a => do
    let st ← if st.pending.map (·.1) != some a.id || !a.many then resolvePending cmd env st
      else pure st
    let st := { st with pending := some (a.id, st.pendingFor a.id ++ [w]) }
    pure (if a.many then st else { st with position := st.position + 1, expecting := none })
  | none => .error (strayWord cmd st.settle w)

/-- Take a word that is not a switch: the value of the expected option, or a positional
value. -/
def takeWord (cmd : CommandId) (env : Env) (w : String) (st : Reading) : Except Halt Reading :=
  match st.expecting with
  | some id => .ok { st with pending := some (id, st.pendingFor id ++ [w]), expecting := none }
  | none => takePositional cmd env w st

/-- Read a run of short switches. -/
def shortSwitches (cmd : CommandId) (env : Env) : List Char → Reading → Except Halt Reading
  | [], st => .ok st
  | ch :: more, st =>
    let c := cmd.spec
    match c.findShort? ch with
    | none =>
      let asValue := !st.escaped && !c.positionals.isEmpty
      .error (refuse (.unknownArgument c ("-" ++ String.singleton ch) none asValue none
        (c.usageLine [])))
    | some a =>
      if !a.takesValue then do
        let st ← react cmd env false a [] st
        shortSwitches cmd env more { st with expecting := none }
      else
        let attached : Option String := match more with
          | [] => none
          | '=' :: v => some (String.ofList v)
          | v => some (String.ofList v)
        match attached with
        | some v => do
          let st ← react cmd env false a [v] st
          pure { st with expecting := none }
        | none => expectValue cmd env a st

/-- Read a long switch word `--name` or `--name=value`; `later` are the words after it. -/
def longSwitch (cmd : CommandId) (env : Env) (w : String) (later : List String) (st : Reading) :
    Except Halt Reading :=
  let c := cmd.spec
  let (nameCs, value?) := match (w.toList.drop 2).span (· != '=') with
    | (n, _ :: v) => (n, some (String.ofList v))
    | (n, []) => (n, none)
  let name := String.ofList nameCs
  match c.findLong? name with
  | none => .error (unknownLong cmd st name later)
  | some a =>
    if a.takesValue then
      match value? with
      | some v => do
        let st ← react cmd env true a [v] st
        pure { st with expecting := none }
      | none => expectValue cmd env a st
    else
      match value? with
      | some v =>
        let used := (st.explicit.filter fun id => !c.requiredIds.contains id) ++ [a.id]
        .error (refuse (.unexpectedValue c v a.display (c.usageLine used)))
      | none => do
        let st ← react cmd env true a [] st
        pure { st with expecting := none }

/-- The help page for `help` followed by command names, walking down from `cmd`. -/
def helpWalk (env : Env) : CommandId → List String → Halt
  | cmd, [] => .shown (helpPage cmd.spec env true)
  | cmd, w :: rest =>
    match cmd.find? w with
    | some sub => helpWalk env sub rest
    | none => refuse (.unrecognizedSubcommand cmd.spec w)

/-- Read the words of a command. The result is the state at the end of the words, or at the
word naming a subcommand together with that subcommand and the words after it. -/
def readWords (cmd : CommandId) (env : Env) :
    List String → Reading → Except Halt (Reading × Option (CommandId × List String))
  | [], st => .ok (st, none)
  | w :: rest, st =>
    let c := cmd.spec
    let next (r : Except Halt Reading) := match r with
      | .ok st => readWords cmd env rest st
      | .error h => .error h
    if st.escaped then next (takePositional cmd env w st)
    else match cmd.find? w with
    | some .helpCommand => .error (helpWalk env cmd rest)
    | some sub => .ok (st, some (sub, rest))
    | none =>
      if w == "--" then readWords cmd env rest { st with escaped := true }
      else if w.startsWith "--" then next (longSwitch cmd env w rest st)
      else if w.startsWith "-" && w != "-" then
        let flags := w.toList.drop 1
        let negative : Bool := match st.expecting with
          | some id => ((c.findArg? id).map (·.negativeNumbers)).getD false && looksNumeric flags
          | none => false
        if negative then next (takeWord cmd env w st)
        else next (shortSwitches cmd env flags st)
      else next (takeWord cmd env w st)

/-- The values an argument takes when it is not given: `false` for a flag, zero for a
count, and the declared default of an option. -/
def defaultValues (a : ArgSpec) : Option (List String) :=
  match a.action with
  | .flag => some ["false"]
  | .count => some ["0"]
  | .value _ => a.defaultText.map ([·])
  | _ => none

/-- Fill in options from the environment. -/
def fromEnvironment (cmd : CommandId) (env : Env) (args : List ArgSpec) (st : Reading) :
    Except Halt Reading :=
  args.foldlM (fun st a =>
    match a.env with
    | some name =>
      if st.has a.id then .ok st
      else match envLookup env name with
        | some v => store cmd env false a .environment [v] st
        | none => .ok st
    | none => .ok st) st

/-- Fill in defaults. -/
def fromDefaults (cmd : CommandId) (env : Env) (args : List ArgSpec) (st : Reading) :
    Except Halt Reading :=
  args.foldlM (fun st a =>
    if st.has a.id then .ok st
    else match defaultValues a with
      | some vs => store cmd env false a .defaultValue vs st
      | none => .ok st) st

/-- Finish a command: check the last values, fill in the environment and defaults, and check
that a subcommand and the required arguments were given. -/
def finish (cmd : CommandId) (env : Env) (withSubcommand : Bool) (st : Reading) :
    Except Halt Reading := do
  let c := cmd.spec
  let st ← resolvePending cmd env st
  let st ← fromEnvironment cmd env c.args st
  let st ← fromDefaults cmd env c.args st
  if !withSubcommand && !c.subcommands.isEmpty then
    if st.explicit.isEmpty then throw (.refused (helpPage c env false))
    else throw (refuse (.missingSubcommand c))
  let missing := c.args.filter fun a => a.required && !st.explicit.contains a.id
  if missing.isEmpty then pure st
  else
    let shown := (missing.filter (!·.positional)).map (·.display) ++
      (missing.filter (·.positional)).map (·.positionalText true)
    let used := st.explicit ++ missing.map (·.id)
    throw (refuse (.missingRequired c shown (c.usageLine used)))

/-- What the program is asked to do. -/
inductive Task where
  /-- Print the built-in parameter set. -/
  | defaults
  /-- Load a parameter file and print it. -/
  | check (config : String)
  /-- Tabulate the gain between two rates. -/
  | curve (config : Option String) (lo hi : Float32) (steps : Nat)
  /-- Replay a capture file. -/
  | replay (input : String) (config : Option String)

/-- A task and the output format. -/
structure Invocation where
  json : Bool
  task : Task

/-- The task of a command whose arguments were read and checked. -/
def taskOf (cmd : CommandId) (st : Reading) : Task :=
  let text (id : String) := (st.valueOf? id).getD ""
  let float (id : String) := match readFloatValue (text id) with
    | .ok x => x
    | .error _ => 0.0
  let count (id : String) := match readSize (text id) with
    | .ok n => n
    | .error _ => 0
  match cmd with
  | .check => .check (text "config")
  | .curve => .curve (st.valueOf? "config") (float "from") (float "to") (count "steps")
  | .replay => .replay (text "input") (st.valueOf? "config")
  | _ => .defaults

/-- Read a command line (without the program name) in an environment. -/
def readCommandLine (env : Env) (words : List String) : Except Halt Invocation := do
  let (top, sub?) ← readWords .top env words Reading.start
  match sub? with
  | none =>
    let _ ← finish .top env false top
    throw (refuse (.missingSubcommand CommandId.top.spec))
  | some (sub, rest) =>
    let (st, _) ← readWords sub env rest Reading.start
    let st ← finish sub env false st
    let top ← finish .top env true top
    pure ⟨top.explicit.contains "json" || st.explicit.contains "json", taskOf sub st⟩

end PointerAccel.Cli
