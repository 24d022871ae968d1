import PointerAccel.Params.Format
import PointerAccel.Json.Read

/-!
# Parameter sets as JSON

A parameter file is a JSON object keyed by the parameter keys and `AccelerationMode`, or an
array of the nine values in that order. Missing fields keep their defaults, unknown keys
are skipped, a repeated key is an error, and the mode must be a byte. The decoded set must
then pass validation.

Written out, a set is an object with the nine fields in declaration order, floats in their
shortest single-precision form and a non-finite float as `null`.

The reader and writer here are the ones the command-line tool runs with. What is proved
about parameter files is proved of the set's codec in `PointerAccel.Params.Format`, over any
format that reads back what it writes.
-/

namespace PointerAccel

open PointerAccel.Json

/-- Read one field of a parameter set by its position among `paramFieldNames`. -/
def readParamField (i : Nat) (p : ParamSet) (fuel : Nat) : Reader ParamSet :=
  match ParamName.all[i]? with
  | some n => do
    let v ← readSingleValue fuel
    pure (p.set n v)
  | none => do
    let c ← readUnsignedValue 8 "u8" fuel
    pure { p with mode := AccelMode.ofCode (UInt8.ofNat c) }

/-- The record description of a parameter set: every field has a default. -/
def paramRecord : RecordSpec ParamSet ParamSet where
  name := "struct ParameterSet"
  fields := paramFieldNames
  denyUnknown := false
  init := ParamSet.default
  readField := readParamField
  hasDefault _ := true
  finish p := .ok p

/-- Decode a JSON text into a parameter set with the JSON library here, without validating
it. -/
def ParamSet.decodeJson (s : String) : Except JsonError ParamSet :=
  readText s (readRecord paramRecord)

/-- Decode and validate a JSON parameter text. -/
def ParamSet.ofJsonText (s : String) : Except ParamError ParamSet :=
  ParamSet.acceptDecoded (fun e : JsonError => .json e.message) (ParamSet.decodeJson s)

/-- A field as a JSON value: a float in single precision, the mode's code as a number. -/
def FieldValue.toJson : FieldValue → JsonValue
  | .f32 x => .single x
  | .u8 b => .nat b.toNat

/-- The pretty JSON text of a parameter set as the JSON library here writes it;
`ParamSet.toJsonPrettyWith` writes the same fields through any format. -/
def ParamSet.toJsonPretty (p : ParamSet) : String :=
  pretty 0 (.obj (p.serdeFields.map fun f => (f.1, f.2.toJson)))

end PointerAccel
