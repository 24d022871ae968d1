import PointerAccel.Params.Surface
import PointerAccel.Text.Unexpected

/-!
# Parameter files through a text format

A parameter file is written and read by a text format library through the struct codec the
parameter set derives. The format is a parameter here: `StructFormat` says what the codec
needs of it and nothing about its syntax. The codec is the set's own. A set is written as its
eight floats under their keys in declaration order and then the mode as its byte code. It is
read from an object's members in order: a known key sets its field once, a repeated key is an
error, any other key is skipped, and a missing key keeps its default. The decoded set must
then pass validation.

The format parses a whole text into members before the codec looks at them, so which of a
syntax error and a codec error a broken text reports is left to the format.
-/

namespace PointerAccel

open PointerAccel.Text

/-- A field as the codec hands it to a format for writing. -/
inductive FieldValue where
  | f32 (x : Float32)
  | u8 (b : UInt8)

/-- A self-describing text format as a derived struct codec uses it. `Value` is a member's
value as the format holds it until the codec asks for a float or a byte. -/
structure StructFormat where
  Value : Type
  writeStruct : List (String × FieldValue) → Except String String
  readMembers : String → Except String (List (String × Value))
  readF32 : Value → Except String Float32
  readU8 : Value → Except String UInt8

/-- The record keys of a parameter set, in declaration order. -/
def paramFieldNames : List String := ParamName.all.map ParamName.key ++ [modeKey]

namespace ParamSet

/-- The fields a set is written as: the floats under their keys in declaration order, then
the mode's byte code. -/
def serdeFields (p : ParamSet) : List (String × FieldValue) :=
  ParamName.all.map (fun n => (n.key, .f32 (p.get n))) ++ [(modeKey, .u8 p.mode.code)]

variable (F : StructFormat)

/-- Read the value of the field at position `i` of `paramFieldNames` into a set. -/
def readFieldWith (i : Nat) (p : ParamSet) (v : F.Value) : Except String ParamSet :=
  match ParamName.all[i]? with
  | some n => (F.readF32 v).map (p.set n)
  | none => (F.readU8 v).map fun c => { p with mode := AccelMode.ofCode c }

/-- Read an object's members in order into a set, `seen` holding the positions already set. -/
def readMembersWith : List (String × F.Value) → ParamSet → List Nat → Except String ParamSet
  | [], p, _ => .ok p
  | (k, v) :: ms, p, seen =>
    match paramFieldNames.idxOf? k with
    | none => readMembersWith ms p seen
    | some i =>
      if i ∈ seen then .error (duplicateField k)
      else do
        let p' ← readFieldWith F i p v
        readMembersWith ms p' (i :: seen)

/-- Decode a text through the format, starting from the defaults, without validating. -/
def decodeWith (s : String) : Except String ParamSet := do
  let ms ← F.readMembers s
  readMembersWith F ms ParamSet.default []

/-- Validate a decoded set; a decoding error is reported through `wrap`. -/
def acceptDecoded {ε : Type} (wrap : ε → ParamError) :
    Except ε ParamSet → Except ParamError ParamSet
  | .error e => .error (wrap e)
  | .ok p => match p.validate with
    | .ok () => .ok p
    | .error v => .error (.invalid v)

/-- Decode and validate a parameter text through a format whose errors `wrap` reports. -/
def fromStrWith (wrap : String → ParamError) (s : String) : Except ParamError ParamSet :=
  acceptDecoded wrap (decodeWith F s)

/-- Decode and validate a JSON parameter text through a JSON format. -/
def fromJsonStrWith (s : String) : Except ParamError ParamSet := fromStrWith F .json s

/-- Decode and validate a YAML parameter text through a YAML format. -/
def fromYamlStrWith (s : String) : Except ParamError ParamSet := fromStrWith F .yaml s

/-- The pretty JSON text of a set, written by a JSON format. -/
def toJsonPrettyWith (p : ParamSet) : Except ParamError String :=
  (F.writeStruct p.serdeFields).mapError .json

end ParamSet

end PointerAccel
