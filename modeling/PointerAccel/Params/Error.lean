import PointerAccel.Params.Validate

/-!
# Parameter errors

Everything that can go wrong while editing the surface or loading a parameter file. Each
error has a kind, used by callers that branch on it, and a message, which is what a person
reads. A validation failure is carried as is and shows its own message.
-/

namespace PointerAccel

/-- A failure to edit or load parameters. -/
inductive ParamError where
  | unknownParameter (key : String)
  | unparsable (key : String) (value : String)
  | unsupportedFormat (path : String)
  | json (detail : String)
  | yaml (detail : String)
  | invalid (e : ValidationError)
  | io (detail : String)

namespace ParamError

/-- The variant name; a validation failure is qualified by its own kind. -/
def kind : ParamError → String
  | .unknownParameter .. => "UnknownParameter"
  | .unparsable .. => "Unparsable"
  | .unsupportedFormat .. => "UnsupportedFormat"
  | .json .. => "Json"
  | .yaml .. => "Yaml"
  | .invalid e => "Invalid." ++ e.kind
  | .io .. => "Io"

/-- The message of a parameter error. -/
def message : ParamError → String
  | .unknownParameter k => "Unknown parameter '" ++ k ++ "'"
  | .unparsable k v => "Parameter '" ++ k ++ "' has unparsable value '" ++ v ++ "'"
  | .unsupportedFormat p => "Unsupported parameter file format: " ++ p
  | .json d => "JSON error: " ++ d
  | .yaml d => "YAML error: " ++ d
  | .invalid e => e.message
  | .io d => "I/O error: " ++ d

/-- The chain of underlying causes below the error itself: an I/O failure names the
operating-system error, every other error is its own last cause. -/
def causes : ParamError → List String
  | .io d => [d]
  | _ => []

end ParamError

end PointerAccel
