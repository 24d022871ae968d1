import PointerAccel.Cli.Parse
import PointerAccel.Cli.Report
import PointerAccel.Params.Yaml

/-!
# Running the program

A run reads the command line, then performs the task and reports its result. A help page or
the version goes to standard output with status 0; a command-line error goes to standard
error with status 2. A finished task prints its report on standard output with status 0; a
failed one prints its error (on standard output in JSON mode, on standard error otherwise)
with the status of the failure.

Files are read through a function from paths to contents, so the same run can be given a
real directory or a described one. A parameter file is read according to its extension, in
any case: `json`, or `yaml` and `yml`; any other extension is refused without reading the
file. A task that needs no parameter file uses the built-in set.
-/

namespace PointerAccel.Cli

/-- What a run printed and its exit status. -/
structure Outcome where
  exit : Nat
  stdout : String
  stderr : String

/-- Load a parameter file, choosing the format by the extension of its path. -/
def loadParams (read : String → Except OsError String) (path : String) :
    Except ParamError ParamSet :=
  let decodeWith (decode : String → Except ParamError ParamSet) :=
    match read path with
    | .ok text => decode text
    | .error e => .error (.io e.message)
  match (extension? path).map (String.map Char.toLower) with
  | some "json" => decodeWith ParamSet.ofJsonText
  | some "yaml" => decodeWith ParamSet.ofYamlText
  | some "yml" => decodeWith ParamSet.ofYamlText
  | _ => .error (.unsupportedFormat path)

/-- The parameters of a task: the file's, or the built-in set when there is none. -/
def paramsFor (read : String → Except OsError String) : Option String → Except TaskError ParamSet
  | none => .ok ParamSet.default
  | some path => (loadParams read path).mapError (.invalidConfiguration path)

/-- The paths a task may read. -/
def Task.paths : Task → List String
  | .defaults => []
  | .check path => [path]
  | .curve config .. => config.toList
  | .replay input config => config.toList ++ [input]

/-- Perform a task; the result is its report. -/
def runTask (read : String → Except OsError String) (json : Bool) :
    Task → Except TaskError String
  | .defaults => .ok (paramsReport ParamSet.default json)
  | .check path => do
    let p ← paramsFor read (some path)
    pure (paramsReport p json)
  | .curve config lo hi steps => do
    let p ← paramsFor read config
    match sampleTable p lo hi steps with
    | .ok pts => pure (curveReport p pts json)
    | .error e => throw (.invalidRange e)
  | .replay input config => do
    let p ← paramsFor read config
    let text ← (read input).mapError (.unreadableInput input)
    let records ← readCapture text
    let (rows, e) ← replayRecords (replayEngine p) records
    pure (replayReport rows e json)

/-- The outcome of a command line that did not lead to a task. -/
def Halt.outcome : Halt → Outcome
  | .shown text => ⟨0, text, ""⟩
  | .refused text => ⟨2, "", text⟩

/-- The outcome of a task. -/
def taskOutcome (json : Bool) : Except TaskError String → Outcome
  | .ok report => ⟨0, report, ""⟩
  | .error e => if json then ⟨e.exitCode, failureJson e, ""⟩ else ⟨e.exitCode, "", failureText e⟩

/-- Run the program on a command line (without the program's name), in an environment, with
files read by `read`. -/
def runCli (read : String → Except OsError String) (env : Env) (args : List String) : Outcome :=
  match readCommandLine env args with
  | .error h => h.outcome
  | .ok inv => taskOutcome inv.json (runTask read inv.json inv.task)

end PointerAccel.Cli
