import PointerAccel.Params.Format
import PointerAccel.Yaml.Read
import PointerAccel.Yaml.Scalar

/-!
# Parameter sets as YAML

A YAML parameter file holds one document: a mapping keyed by the parameter keys and
`AccelerationMode`. An empty document (no content, or an empty scalar) is the default set.
Missing keys keep their defaults, unknown keys are skipped whatever their value, and a
repeated key is an error.

A parameter must be a plain scalar spelling a finite float (`.inf`, `-.inf` and `.nan`
spellings aside), rounded once to a double and then to single precision; the mode must be
a plain integer below 256. Anything else is reported with the key, what was found and where
it starts. A text holding more than one document is refused. The decoded set must then pass
validation.

The reader here is the one the command-line tool runs with; what is proved about parameter
files is proved of the set's codec in `PointerAccel.Params.Format`, over any format.
-/

namespace PointerAccel

open PointerAccel.Binary PointerAccel.Text PointerAccel.Yaml

/-- The message of a field's error: the key, the problem, and the place of the value. -/
def fieldProblem (key msg : String) (m : Mark) : String := key ++ ": " ++ msg ++ m.suffix

/-- A parameter value: a plain scalar spelling a float, narrowed to single precision. -/
def yamlSingle (key : String) (n : YamlNode) : Except String Float32 :=
  match n with
  | .scalar v true _ m => match floatOf v with
    | some x => .ok (narrow x)
    | none => .error (fieldProblem key (n.wrongType "f32") m)
  | _ => .error (fieldProblem key (n.wrongType "f32") n.mark)

/-- The mode value: a plain scalar spelling an integer below 256. -/
def yamlMode (key : String) (n : YamlNode) : Except String AccelMode :=
  match n with
  | .scalar v true _ m => match unsignedOf 64 v with
    | some c =>
      if c < 256 then .ok (AccelMode.ofCode (UInt8.ofNat c))
      else .error (fieldProblem key (invalidValueIn plainWording (.unsigned c) "u8") m)
    | none => .error (fieldProblem key (n.wrongType "u8") m)
  | _ => .error (fieldProblem key (n.wrongType "u8") n.mark)

/-- Read one known field into a set: a parameter by its name, or the mode. -/
def yamlField (p : ParamSet) (key : String) (n : YamlNode) : Option (Except String ParamSet) :=
  if key = modeKey then some ((yamlMode key n).map fun m => { p with mode := m })
  else (ParamName.ofKey? key).map fun name => (yamlSingle key n).map (p.set name)

/-- Read the entries of the document's mapping, which starts at `start`, into a set. -/
def yamlEntries (start : Mark) :
    List (YamlNode × YamlNode) → ParamSet → List String → Except String ParamSet
  | [], p, _ => .ok p
  | (k, v) :: rest, p, seen =>
    match k with
    | .scalar key _ _ _ =>
      match yamlField p key v with
      | none => yamlEntries start rest p seen
      | some r =>
        if seen.contains key then .error (duplicateField key ++ start.suffix)
        else match r with
          | .ok p' => yamlEntries start rest p' (key :: seen)
          | .error e => .error e
    | other => .error (other.wrongType "field identifier" ++ other.mark.suffix)

/-- Decode the document of a YAML text into a parameter set, without validating it. -/
def ParamSet.decodeYaml (s : String) : Except String ParamSet :=
  match readDocument s with
  | .error e => .error e.message
  | .ok (doc, more) =>
    let decoded : Except String ParamSet := match doc with
      | none => .ok ParamSet.default
      | some (.scalar "" true _ _) => .ok ParamSet.default
      | some (.map entries m) => yamlEntries m entries ParamSet.default []
      | some n => .error (n.wrongType "struct ParameterSet" ++ n.mark.suffix)
    match decoded with
    | .error e => .error e
    | .ok p =>
      if more then .error "deserializing from YAML containing more than one document is not supported"
      else .ok p

/-- Decode and validate a YAML parameter text. -/
def ParamSet.ofYamlText (s : String) : Except ParamError ParamSet :=
  ParamSet.acceptDecoded .yaml (ParamSet.decodeYaml s)

end PointerAccel
