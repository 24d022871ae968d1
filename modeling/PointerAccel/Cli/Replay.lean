import PointerAccel.Json.Read
import PointerAccel.Engine.Cycle
import PointerAccel.Cli.Failure

/-!
# Replaying a capture

A capture is a text of JSON records, one per line:

    {"t_us": 1000, "dx": 3, "dy": -1}
    {"t_us": 3000, "dx": 1, "set": {"Sensitivity": "1.5"}, "reload": true}

`t_us` (the time in microseconds) is required; `dx`, `dy` and `dwheel` default to zero,
`usable` to true, `set` to no edits and `reload` to false. No other field is allowed.
Blank lines and lines starting with `#` (after trimming) are skipped; lines are numbered
from one. The whole capture is read before anything is replayed, so a bad line stops the
replay before it starts.

Each record drives one cycle of a fresh engine: the edits are applied to the tunable surface
in key order (a text value as it is, any other value as its compact JSON), `reload` raises
the reload flag, the clock is set to the record's time and the numeric context to `usable`,
and the sample is processed.
-/

namespace PointerAccel.Cli

open PointerAccel.Json PointerAccel.Binary

/-- One record of a capture. -/
structure CaptureRecord where
  tUs : Nat
  dx : Int
  dy : Int
  dwheel : Int
  usable : Bool
  edits : List (String × JsonValue)
  reload : Bool

/-- A record being read; the time has no default. -/
structure RecordDraft where
  tUs : Option Nat
  dx : Int
  dy : Int
  dwheel : Int
  usable : Bool
  edits : List (String × JsonValue)
  reload : Bool

/-- The fields of a record, in declaration order. -/
def captureFields : List String := ["t_us", "dx", "dy", "dwheel", "usable", "set", "reload"]

/-- Read one field of a record by its position among `captureFields`. -/
def readCaptureField (i : Nat) (d : RecordDraft) (fuel : Nat) : Reader RecordDraft :=
  match i with
  | 0 => do let t ← readUnsignedValue 64 "u64" fuel; pure { d with tUs := some t }
  | 1 => do let v ← readI32Value fuel; pure { d with dx := v }
  | 2 => do let v ← readI32Value fuel; pure { d with dy := v }
  | 3 => do let v ← readI32Value fuel; pure { d with dwheel := v }
  | 4 => do let b ← readBoolValue fuel; pure { d with usable := b }
  | 5 => do let m ← readStringMap (nestingLimit - 1) fuel; pure { d with edits := m }
  | _ => do let b ← readBoolValue fuel; pure { d with reload := b }

/-- The record description of a capture line. -/
def captureRecord : RecordSpec RecordDraft CaptureRecord where
  name := "struct ReplayRecord"
  fields := captureFields
  denyUnknown := true
  init := ⟨none, 0, 0, 0, true, [], false⟩
  readField := readCaptureField
  hasDefault i := i != 0
  finish d := match d.tUs with
    | some t => .ok ⟨t, d.dx, d.dy, d.dwheel, d.usable, d.edits, d.reload⟩
    | none => .error "missing field `t_us`"

/-- Number the lines of a text from `n`, keeping the trimmed lines that hold a record. -/
def recordLines : List String → Nat → List (Nat × String)
  | [], _ => []
  | l :: rest, n =>
    let t := PointerAccel.Text.trimSpace l
    if t.isEmpty || t.startsWith "#" then recordLines rest (n + 1)
    else (n, t) :: recordLines rest (n + 1)

/-- Read every record of a capture, stopping at the first bad line. -/
def readRecords : List (Nat × String) → Except TaskError (List (Nat × CaptureRecord))
  | [] => .ok []
  | (n, t) :: rest =>
    match readText t (readRecord captureRecord) with
    | .error e => .error (.invalidInput n e.message)
    | .ok r => match readRecords rest with
      | .ok rs => .ok ((n, r) :: rs)
      | .error e => .error e

/-- Read a capture text. -/
def readCapture (text : String) : Except TaskError (List (Nat × CaptureRecord)) :=
  readRecords (recordLines (text.splitOn "\n") 1)

/-- The text an edit gives to the surface: a JSON string as it is, anything else as its
compact JSON. -/
def editText : JsonValue → String
  | .str s => s
  | v => compact v

/-- Apply a record's edits to the surface, in order. -/
def applyEdits (line : Nat) (s : Surface) : List (String × JsonValue) → Except TaskError Surface
  | [] => .ok s
  | (k, v) :: rest =>
    match s.setByKey k (editText v) with
    | .ok s' => applyEdits line s' rest
    | .error e => .error (.invalidInput line e.message)

/-- One replayed record: where it came from, its sample and what the cycle gave. -/
structure ReplayRow where
  line : Nat
  tUs : Nat
  input : RawSample
  result : Except CycleError RawSample

/-- The status of a replayed record. -/
def ReplayRow.status (r : ReplayRow) : ProcessStatus :=
  ProcessStatus.ofError? (match r.result with
    | .ok _ => none
    | .error e => some e)

/-- The output sample of a replayed record, if the cycle succeeded. -/
def ReplayRow.output? (r : ReplayRow) : Option RawSample :=
  match r.result with
  | .ok s => some s
  | .error _ => none

/-- The sample of a record. -/
def CaptureRecord.sample (r : CaptureRecord) : RawSample :=
  ⟨Int32.ofInt r.dx, Int32.ofInt r.dy, Int32.ofInt r.dwheel⟩

/-- Replay one record on an engine. -/
def replayRecord (e : Engine) (line : Nat) (r : CaptureRecord) :
    Except TaskError (ReplayRow × Engine) := do
  let s ← applyEdits line e.surface r.edits
  let s := if r.reload then s.requestReload else s
  let e := { e with surface := s, clockNs := satMul (UInt64.ofNat r.tUs) 1000, usable := r.usable }
  let (result, e) := e.process r.sample
  pure (⟨line, r.tUs, r.sample, result⟩, e)

/-- Replay records in order, collecting the rows. -/
def replayRecords (e : Engine) : List (Nat × CaptureRecord) → Except TaskError (List ReplayRow × Engine)
  | [] => .ok ([], e)
  | (n, r) :: rest => do
    let (row, e) ← replayRecord e n r
    let (rows, e) ← replayRecords e rest
    pure (row :: rows, e)

/-- A fresh engine with the given parameters: the surface holds them, the clock reads zero
and the numeric context is usable. -/
def replayEngine (p : ParamSet) : Engine := Engine.init p (Surface.ofParams p) 0 true

end PointerAccel.Cli
