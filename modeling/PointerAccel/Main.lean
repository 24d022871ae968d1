import PointerAccel.Cli.Run

/-!
# The `accelctl` program

The outer shell: it reads the environment variable naming a parameter file and the files a
task needs, runs the program, and prints what it printed with its exit status. Everything
else happens in `runCli`'s pure parts.
-/

namespace PointerAccel.Cli

/-- The system's failure to read a file, as the program reports it. -/
def osErrorOf (e : IO.Error) : OsError :=
  match e with
  | .noFileOrDirectory .. => .notFound
  | .inappropriateType _ 21 _ => .isDirectory
  | .inappropriateType _ 20 _ => .notDirectory
  | .otherError 21 _ => .isDirectory
  | .otherError 20 _ => .notDirectory
  | other => .other (toString other)

/-- Read a file, keeping a failure as a value. -/
def readPath (path : String) : IO (Except OsError String) := do
  try
    pure (.ok (← IO.FS.readFile path))
  catch e =>
    pure (.error (osErrorOf e))

/-- Read every path in a list. -/
def readPaths : List String → IO (List (String × Except OsError String))
  | [] => pure []
  | p :: ps => do
    let r ← readPath p
    let rs ← readPaths ps
    pure ((p, r) :: rs)

/-- Look a path up among files read beforehand. -/
def lookupRead (files : List (String × Except OsError String)) (path : String) :
    Except OsError String :=
  match files.find? (·.1 == path) with
  | some (_, r) => r
  | none => .error .notFound

end PointerAccel.Cli

/-- Run `accelctl` on the process's arguments. -/
def main (args : List String) : IO UInt32 := do
  let name := PointerAccel.Cli.configEnv
  let env := match ← IO.getEnv name with
    | some v => [(name, v)]
    | none => []
  let outcome ← match PointerAccel.Cli.readCommandLine env args with
    | .error h => pure h.outcome
    | .ok inv => do
      let files ← PointerAccel.Cli.readPaths inv.task.paths
      pure (PointerAccel.Cli.taskOutcome inv.json
        (PointerAccel.Cli.runTask (PointerAccel.Cli.lookupRead files) inv.json inv.task))
  IO.print outcome.stdout
  IO.eprint outcome.stderr
  (← IO.getStdout).flush
  (← IO.getStderr).flush
  pure outcome.exit.toUInt32
