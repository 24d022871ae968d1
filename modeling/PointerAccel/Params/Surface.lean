import PointerAccel.Params.Error
import PointerAccel.Params.FloatText

/-!
# The tunable surface

The text side of the configuration: one string per float parameter, a mode byte and a
reload flag. Strings are stored verbatim and only parsed when a reload applies them, so a
bad string costs nothing until then and is then kept out of the live set.

Two extra keys are accepted by `setByKey`: `AccelerationMode`, a byte, and `update`, a
byte whose non-zero value requests a reload.
-/

namespace PointerAccel

open PointerAccel.Binary PointerAccel.Text

/-- The string surface of a parameter set. -/
structure Surface where
  text : ParamName → String
  modeCode : UInt8
  reloadRequested : Bool

/-- The key of the mode byte. -/
def modeKey : String := "AccelerationMode"

/-- The key of the reload request byte. -/
def updateKey : String := "update"

namespace Surface

/-- A surface holding the plain text of every field of a set, its mode code, and no
pending request. -/
def ofParams (p : ParamSet) : Surface :=
  ⟨fun n => display (p.get n), p.mode.code, false⟩

/-- The surface of the defaults. -/
def new : Surface := ofParams ParamSet.default

/-- Store a string for a field, verbatim. -/
def setText (s : Surface) (n : ParamName) (v : String) : Surface :=
  { s with text := fun m => if m = n then v else s.text m }

/-- Set the mode byte. -/
def setMode (s : Surface) (code : UInt8) : Surface := { s with modeCode := code }

/-- Raise the reload flag. -/
def requestReload (s : Surface) : Surface := { s with reloadRequested := true }

/-- Clear the reload flag, returning whether it was raised. -/
def takeReloadRequest (s : Surface) : Bool × Surface :=
  (s.reloadRequested, { s with reloadRequested := false })

/-- Read a byte value after trimming, reporting the untrimmed text on failure. -/
def readKeyByte (key value : String) : Except ParamError UInt8 :=
  match readByte (trimSpace value) with
  | some b => .ok b
  | none => .error (.unparsable key value)

/-- Edit the surface by key: a field key stores the text, the mode key sets the mode byte,
the update key may request a reload, and any other key is refused. -/
def setByKey (s : Surface) (key value : String) : Except ParamError Surface :=
  match ParamName.ofKey? key with
  | some n => .ok (s.setText n value)
  | none =>
    if key = modeKey then (readKeyByte modeKey value).map s.setMode
    else if key = updateKey then
      (readKeyByte updateKey value).map fun b => if b = 0 then s else s.requestReload
    else .error (.unknownParameter key)

/-- A write to the surface, as the host's setters make it. -/
inductive Edit where
  | setText (n : ParamName) (v : String)
  | setByKey (key value : String)
  | setMode (code : UInt8)
  | requestReload

/-- Apply a write; a refused `setByKey` leaves the surface as it was. -/
def edit (s : Surface) : Edit → Surface
  | .setText n v => s.setText n v
  | .setByKey k v =>
    match s.setByKey k v with
    | .ok s' => s'
    | .error _ => s
  | .setMode c => s.setMode c
  | .requestReload => s.requestReload

/-- Read the surface by key: field text, the mode byte, or the request flag as `1`/`0`. -/
def getByKey (s : Surface) (key : String) : Except ParamError String :=
  match ParamName.ofKey? key with
  | some n => .ok (s.text n)
  | none =>
    if key = modeKey then .ok (natText s.modeCode.toNat)
    else if key = updateKey then .ok (if s.reloadRequested then "1" else "0")
    else .error (.unknownParameter key)

/-- Every field key with its text, in field order, then the mode key with its code. -/
def snapshot (s : Surface) : List (String × String) :=
  ParamName.all.map (fun n => (n.key, s.text n)) ++ [(modeKey, natText s.modeCode.toNat)]

/-- One field of a parse: a field whose text `parse` reads is set, any other is rejected. -/
def readField (s : Surface) (parse : String → Option Float32) (acc : ParamSet × List ParamName)
    (n : ParamName) : ParamSet × List ParamName :=
  match parse (s.text n) with
  | some v => (acc.1.set n v, acc.2)
  | none => (acc.1, acc.2 ++ [n])

/-- Parse every field onto a base set with a float reader. A field whose text does not read keeps
the base value and is reported as rejected, in field order; the mode always comes from the mode
byte. -/
def parseOnto (s : Surface) (parse : String → Option Float32) (base : ParamSet) :
    ParamSet × List ParamName :=
  let r := ParamName.all.foldl (s.readField parse) (base, [])
  ({ r.1 with mode := AccelMode.ofCode s.modeCode }, r.2)

end Surface

end PointerAccel
