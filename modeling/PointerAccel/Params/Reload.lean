import PointerAccel.Params.Surface

/-!
# Debounced reload

A reload request is honoured at most once per second. A request that arrives early is left
pending and reported as deferred; once allowed, the flag is consumed, the surface is parsed
onto the live set and the next allowed time moves one second past now (saturating). If a
writer holds the surface's strings at that moment, the flag is raised again and the attempt
is deferred as contended.
-/

namespace PointerAccel

/-- The result of one reload attempt. -/
inductive ReloadOutcome where
  | idle
  | debounced
  | contended
  | applied
  deriving Repr, DecidableEq

namespace ReloadOutcome

/-- Whether the attempt was postponed with the request still pending. -/
def isDeferred : ReloadOutcome → Bool
  | .debounced | .contended => true
  | _ => false

/-- The outcome's name. -/
def name : ReloadOutcome → String
  | .idle => "Idle"
  | .debounced => "Debounced"
  | .contended => "Contended"
  | .applied => "Applied"

end ReloadOutcome

/-- Minimum time between two applied reloads, in nanoseconds. -/
def reloadIntervalNs : UInt64 := 1000000000

/-- Saturating addition of unsigned 64-bit values. -/
def satAdd (a b : UInt64) : UInt64 :=
  if a.toNat + b.toNat < Nat.pow 2 64 then a + b else UInt64.ofNat (Nat.pow 2 64 - 1)

/-- Saturating subtraction of unsigned 64-bit values. -/
def satSub (a b : UInt64) : UInt64 := if b ≤ a then a - b else 0

/-- Saturating multiplication of unsigned 64-bit values. -/
def satMul (a b : UInt64) : UInt64 :=
  if a.toNat * b.toNat < Nat.pow 2 64 then a * b else UInt64.ofNat (Nat.pow 2 64 - 1)

/-- The reload controller's own state: when the next reload may apply, and which fields
the last applied reload could not read. -/
structure ReloadState where
  nextAllowedNs : UInt64
  rejected : List ParamName

/-- A controller that may reload at once and has rejected nothing. -/
def ReloadState.initial : ReloadState := ⟨0, []⟩

/-- Everything a reload attempt can change. -/
structure ReloadStep where
  outcome : ReloadOutcome
  surface : Surface
  state : ReloadState
  live : ParamSet

/-- One reload attempt at time `now` over a surface and the live set, by a controller that reads
floats with `parse`. The request is taken before the strings are read; `held` says whether a
writer holds the strings at that moment, in which case the request is raised again and the
attempt is contended. -/
def pollReloadWith (parse : String → Option Float32) (held : Bool) (s : Surface)
    (st : ReloadState) (now : UInt64) (live : ParamSet) : ReloadStep :=
  if !s.reloadRequested then ⟨.idle, s, st, live⟩
  else if now < st.nextAllowedNs then ⟨.debounced, s, st, live⟩
  else
    let (taken, s) := s.takeReloadRequest
    -- only another poller could have taken the request since it was checked
    if !taken then ⟨.idle, s, st, live⟩
    else if held then ⟨.contended, s.requestReload, st, live⟩
    else
      let parsed := s.parseOnto parse live
      ⟨.applied, s, ⟨satAdd now reloadIntervalNs, parsed.2⟩, parsed.1⟩

/-- One reload attempt by a controller with the standard float reader. -/
def pollReload (held : Bool) (s : Surface) (st : ReloadState) (now : UInt64) (live : ParamSet) :
    ReloadStep :=
  pollReloadWith readParamFloat held s st now live

/-- A reload attempt while no writer holds the surface's strings, as an engine cycle makes it. -/
def maybeReload (s : Surface) (st : ReloadState) (now : UInt64) (live : ParamSet) : ReloadStep :=
  pollReload false s st now live

/-- A reload controller with the surface it reads and the live set it writes. -/
structure Controller where
  surface : Surface
  state : ReloadState
  live : ParamSet

/-- What happens around a controller: a writer edits the surface, or the controller polls at
a time, with the surface's strings held by a writer or free. -/
inductive ControllerOp where
  | edit (w : Surface.Edit)
  | poll (now : UInt64) (held : Bool)

namespace Controller

/-- One operation: the outcome of a poll, and the controller after it. -/
def perform (c : Controller) : ControllerOp → Option ReloadOutcome × Controller
  | .edit w => (none, { c with surface := c.surface.edit w })
  | .poll now held =>
    let r := pollReload held c.surface c.state now c.live
    (some r.outcome, ⟨r.surface, r.state, r.live⟩)

/-- The controller after a sequence of operations. -/
def run (c : Controller) (ops : List ControllerOp) : Controller :=
  ops.foldl (fun c op => (c.perform op).2) c

end Controller

end PointerAccel
