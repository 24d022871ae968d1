import PointerAccel.Engine.Counters
import PointerAccel.Engine.Carry
import PointerAccel.Engine.FrameTimer
import PointerAccel.Curves.Gain
import PointerAccel.Engine.Fault

/-!
# The processing cycle

One call of `Engine.process` turns a raw sample into an output sample. In order:

1. without a numeric context the sample is buffered and the cycle fails at once;
2. otherwise a section is entered (and left on every exit below);
3. a sample that does not survive single precision is buffered and the cycle faults;
4. the buffer is drained and merged into the sample;
5. the frame time is taken and a pending reload may apply;
6. the gain is computed and the carry applied; a sentinel in the output faults the cycle
   and leaves the carry as it was, otherwise the carry advances.
-/

namespace PointerAccel

open PointerAccel.Binary

/-- The whole engine state, clock and numeric context included, with whether a writer holds
the surface's strings while the engine runs. -/
structure Engine where
  clockNs : UInt64
  usable : Bool
  held : Bool
  begins : UInt64
  ends : UInt64
  params : ParamSet
  surface : Surface
  reload : ReloadState
  timer : FrameTimer
  carry : CarryState
  buffer : EventBuffer
  counters : Counters

namespace Engine

/-- A fresh engine with live parameters, a surface, a clock reading and a context state. -/
def init (params : ParamSet) (surface : Surface) (clockNs : UInt64) (usable : Bool) : Engine where
  clockNs := clockNs
  usable := usable
  held := false
  begins := 0
  ends := 0
  params := params
  surface := surface
  reload := ReloadState.initial
  timer := FrameTimer.new
  carry := CarryState.zero
  buffer := EventBuffer.empty
  counters := Counters.zero

/-- Merge a sample with drained buffer sums, each converted to single precision first. -/
def merge (s : RawSample) (b : EventBuffer) : Float32 × Float32 × Float32 :=
  (singleOfInt s.dx.toInt + singleOfInt b.x.toInt, singleOfInt s.dy.toInt + singleOfInt b.y.toInt,
    singleOfInt s.dwheel.toInt + singleOfInt b.wheel.toInt)

/-- The reload poll a cycle makes at the clock reading; it finds the surface's strings held
when a writer holds them. -/
def poll (e : Engine) : ReloadStep := pollReload e.held e.surface e.reload e.clockNs e.params

/-- The counters once a cycle that passed the exactness check has merged the buffer and
polled for a reload. -/
def passCounters (e : Engine) : Counters :=
  let counters := if e.buffer.isEmpty then e.counters else e.counters.bump .sampleMerged
  match e.poll.outcome with
  | .applied => counters.bump .reloadApplied
  | .debounced | .contended => counters.bump .reloadDeferred
  | .idle => counters

/-- The rounding of a cycle that passed the exactness check: the buffer merged into the
sample, scaled by the gain at this cycle's frame time under the set this cycle's poll
leaves live, with the carry added. -/
def rounding (e : Engine) (s : RawSample) : Carried :=
  let (dx, dy, dw) := merge s e.buffer
  let live := e.poll.live
  e.carry.apply dx dy dw (gain dx dy (e.timer.elapsed e.clockNs).1 live) live

/-- The engine once a cycle that passed the exactness check has drained the buffer, read
the clock and polled for a reload; only the carry and the outcome counter are left. -/
def drain (e : Engine) : Engine :=
  { e with buffer := EventBuffer.empty, timer := (e.timer.elapsed e.clockNs).2,
           surface := e.poll.surface, reload := e.poll.state, params := e.poll.live,
           counters := e.passCounters }

/-- The part of a cycle inside an entered section: from the exactness check to the output.
The caller leaves the section afterwards. -/
def runSection (e : Engine) (s : RawSample) : Except CycleError RawSample × Engine :=
  if !s.isFloatExact then
    (.error CycleError.numericFault,
      { e with buffer := e.buffer.absorb s, counters := e.counters.bump .preValidationFault })
  else
    let carried := e.rounding s
    let e' := e.drain
    if carried.isFaulted then
      (.error CycleError.numericFault,
        { e' with counters := e'.counters.bump .postValidationFault })
    else
      (.ok carried.output,
        { e' with counters := e'.counters.bump .cycleOk, carry := carried.remainder })

/-- Process one raw sample. -/
def process (e : Engine) (s : RawSample) : Except CycleError RawSample × Engine :=
  if !e.usable then
    (.error CycleError.contextUnavailable,
      { e with buffer := e.buffer.absorb s, counters := e.counters.bump .contextUnavailable })
  else
    let (r, e') := runSection { e with begins := e.begins + 1 } s
    (r, { e' with ends := e'.ends + 1 })

/-- What the host does to an engine: move the clock, switch the numeric context, write to
the shared surface, take or release the surface's strings from another thread, or hand the
engine a sample. -/
inductive HostOp where
  | setClock (ns : UInt64)
  | setUsable (usable : Bool)
  | edit (w : Surface.Edit)
  | setHeld (held : Bool)
  | process (s : RawSample)

/-- One host operation: the cycle result when a sample was processed, and the engine after it. -/
def perform (e : Engine) : HostOp → Option (Except CycleError RawSample) × Engine
  | .setClock ns => (none, { e with clockNs := ns })
  | .setUsable b => (none, { e with usable := b })
  | .edit w => (none, { e with surface := e.surface.edit w })
  | .setHeld b => (none, { e with held := b })
  | .process s => (some (e.process s).1, (e.process s).2)

/-- The engine after a run of host operations. -/
def run (e : Engine) (ops : List HostOp) : Engine := ops.foldl (fun e op => (e.perform op).2) e

end Engine

end PointerAccel
