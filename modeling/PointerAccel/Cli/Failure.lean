import PointerAccel.Params.Error
import PointerAccel.Curves.Table
import PointerAccel.Cli.Files

/-!
# Why a task failed

A task fails for one of four reasons, each with its exit status:

* the parameter file could not be loaded (2);
* the capture file could not be read (3);
* a line of the capture is not a valid record, or edits an unknown or unreadable
  parameter (3);
* the curve's range or step count is refused (1).

An error is reported with its message and then the chain of what caused it, innermost last.
-/

namespace PointerAccel.Cli

/-- A failed task. -/
inductive TaskError where
  | invalidConfiguration (path : String) (cause : ParamError)
  | unreadableInput (path : String) (cause : OsError)
  | invalidInput (line : Nat) (reason : String)
  | invalidRange (cause : CurveError)

namespace TaskError

/-- The message of a failure. -/
def message : TaskError → String
  | .invalidConfiguration path e => "Invalid configuration " ++ path ++ ": " ++ e.message
  | .unreadableInput path e => "Cannot read input " ++ path ++ ": " ++ e.message
  | .invalidInput line reason => "Invalid input at line " ++ toString line ++ ": " ++ reason
  | .invalidRange e => "Invalid curve range: " ++ e.message

/-- The messages of the causes of a failure, outermost first. -/
def causes : TaskError → List String
  | .invalidConfiguration _ e => e.message :: e.causes
  | .unreadableInput _ e => [e.message]
  | .invalidInput .. => []
  | .invalidRange e => [e.message]

/-- The exit status of a failure. -/
def exitCode : TaskError → Nat
  | .invalidConfiguration .. => 2
  | .unreadableInput .. => 3
  | .invalidInput .. => 3
  | .invalidRange _ => 1

end TaskError

end PointerAccel.Cli
