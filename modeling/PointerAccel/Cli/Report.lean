import PointerAccel.Cli.Replay
import PointerAccel.Params.Json
import PointerAccel.Binary.Render

/-!
# Reports

Every task prints its result in one of two formats.

* Text, for people: a table of parameters (key left-aligned in 16 columns, value
  right-aligned in 10), a curve table (rates with 4 decimals and gains with 6, each
  right-aligned in 12 columns, and a warning when the gain ever decreases), or a replay table
  followed by a summary of the engine's counters, carry and pending sums.
* JSON, for programs: one pretty-printed object with sorted keys and `"success": true`.
  Floats are widened to double precision exactly, so `0.04` prints as
  `0.03999999910593033`; a float that is not finite is `null`.

A failure prints `Error: <message>` and one `  Caused by: <cause>` line per cause on standard
error, or `{"error": {"message": ...}, "success": false}` on standard output in JSON mode.
-/

namespace PointerAccel.Cli

open PointerAccel.Json PointerAccel.Binary

/-- Pad a text on the left with blanks to a width. -/
def padLeft (s : String) (w : Nat) : String := String.ofList (List.replicate (w - s.length) ' ') ++ s

/-- Pad a text on the right with blanks to a width. -/
def padRight (s : String) (w : Nat) : String := s ++ String.ofList (List.replicate (w - s.length) ' ')

/-- A single as a JSON number, widened to double precision. -/
def wideNumber (x : Float32) : JsonValue := .double (widen x)

/-- A pretty JSON text with a final line break. -/
def jsonLine (v : JsonValue) : String := pretty 0 v ++ "\n"

/-- A parameter set as a JSON object with sorted keys. -/
def paramsJson (p : ParamSet) : JsonValue :=
  sortedObj (ParamName.all.map (fun n => (n.key, wideNumber (p.get n))) ++
    [(modeKey, .nat p.mode.code.toNat)])

/-- One row of the parameter table. -/
def paramRow (key value note : String) : String :=
  "  " ++ padRight key 16 ++ " " ++ padLeft value 10 ++ "  " ++ note ++ "\n"

/-- The parameter report. -/
def paramsReport (p : ParamSet) (json : Bool) : String :=
  if json then jsonLine (sortedObj [("success", .bool true), ("parameters", paramsJson p)])
  else
    "Parameters:\n" ++
    String.join (ParamName.all.map fun n => paramRow n.key (display (p.get n)) n.description) ++
    paramRow modeKey (natText p.mode.code.toNat) p.mode.name

/-- The curve report. -/
def curveReport (p : ParamSet) (pts : List GainPoint) (json : Bool) : String :=
  if json then
    jsonLine (sortedObj [("success", .bool true), ("mode", .str p.mode.name),
      ("monotonic", .bool (isMonotonic pts)),
      ("max_gain", match maxGain pts with
        | some g => wideNumber g
        | none => .null),
      ("points", .arr (pts.map fun pt =>
        sortedObj [("rate", wideNumber pt.rate), ("gain", wideNumber pt.gain)]))])
  else
    "Curve: " ++ p.mode.name ++ "\n" ++
    "  " ++ padLeft "rate" 12 ++ " " ++ padLeft "gain" 12 ++ "\n" ++
    String.join (pts.map fun pt =>
      "  " ++ padLeft (fixed 4 pt.rate) 12 ++ " " ++ padLeft (fixed 6 pt.gain) 12 ++ "\n") ++
    (if isMonotonic pts then "" else "Warning: gain decreases somewhere in this range\n")

/-- A sample as a JSON object. -/
def sampleJson (s : RawSample) : JsonValue :=
  sortedObj [("dx", .int s.dx.toInt), ("dy", .int s.dy.toInt), ("dwheel", .int s.dwheel.toInt)]

/-- A sample as three numbers. -/
def sampleText (s : RawSample) : String :=
  intText s.dx.toInt ++ " " ++ intText s.dy.toInt ++ " " ++ intText s.dwheel.toInt

/-- The counters as a JSON object. -/
def countersJson (c : Counters) : JsonValue :=
  sortedObj [("cycles_ok", .nat c.cyclesOk.toNat),
    ("context_unavailable", .nat c.contextUnavailable.toNat),
    ("pre_validation_faults", .nat c.preValidationFaults.toNat),
    ("post_validation_faults", .nat c.postValidationFaults.toNat),
    ("reloads_applied", .nat c.reloadsApplied.toNat),
    ("reloads_deferred", .nat c.reloadsDeferred.toNat),
    ("samples_merged", .nat c.samplesMerged.toNat)]

/-- The label of a status in the replay table. -/
def statusLabel : ProcessStatus → String
  | .ok => "ok"
  | .contextUnavailable => "buffered"
  | .numericFault => "fault"

/-- One row of the replay table. -/
def replayRow (line tUs input status output : String) : String :=
  "  " ++ padLeft line 5 ++ " " ++ padLeft tUs 10 ++ " " ++ padLeft input 20 ++ " " ++
    padLeft status 9 ++ " " ++ padLeft output 20 ++ "\n"

/-- The replay report: the rows and the final state of the engine. -/
def replayReport (rows : List ReplayRow) (e : Engine) (json : Bool) : String :=
  let c := e.counters
  if json then
    jsonLine (sortedObj [("success", .bool true),
      ("rows", .arr (rows.map fun r => sortedObj [("line", .nat r.line), ("t_us", .nat r.tUs),
        ("input", sampleJson r.input), ("status", .str r.status.tag),
        ("output", match r.output? with
          | some s => sampleJson s
          | none => .null)])),
      ("counters", countersJson c),
      ("carry", .arr [wideNumber e.carry.x, wideNumber e.carry.y, wideNumber e.carry.wheel]),
      ("buffered", .arr [.int e.buffer.x.toInt, .int e.buffer.y.toInt, .int e.buffer.wheel.toInt]),
      ("parameters", paramsJson e.params)])
  else
    replayRow "line" "t_us" "input" "status" "output" ++
    String.join (rows.map fun r =>
      replayRow (natText r.line) (natText r.tUs) (sampleText r.input) (statusLabel r.status)
        (match r.output? with
          | some s => sampleText s
          | none => "-")) ++
    "\n" ++
    "Summary:\n" ++
    "  Cycles:       " ++ natText c.cyclesOk.toNat ++ " ok of " ++ natText c.totalCycles.toNat ++ "\n" ++
    "  Buffered:     " ++ natText c.contextUnavailable.toNat ++ "\n" ++
    "  Faults:       " ++ natText c.numericFaults.toNat ++ "\n" ++
    "  Reloads:      " ++ natText c.reloadsApplied.toNat ++ " applied, " ++
      natText c.reloadsDeferred.toNat ++ " deferred\n" ++
    "  Carry:        " ++ fixed 4 e.carry.x ++ " " ++ fixed 4 e.carry.y ++ " " ++
      fixed 4 e.carry.wheel ++ "\n" ++
    (if e.buffer.isEmpty then ""
     else "  Pending: " ++ intText e.buffer.x.toInt ++ " " ++ intText e.buffer.y.toInt ++ " " ++
       intText e.buffer.wheel.toInt ++ "\n")

/-- A failure in text: the message and its causes. -/
def failureText (e : TaskError) : String :=
  "Error: " ++ e.message ++ "\n" ++ String.join (e.causes.map fun c => "  Caused by: " ++ c ++ "\n")

/-- A failure in JSON. -/
def failureJson (e : TaskError) : String :=
  jsonLine (sortedObj [("success", .bool false), ("error", .obj [("message", .str e.message)])])

end PointerAccel.Cli
