import PointerAccel.Params.Reload

/-!
# Engine counters

Seven event counters. Increments wrap around at `2^64`, like an atomic fetch-add; the
derived totals saturate instead, so a total is never smaller than any of its parts.
-/

namespace PointerAccel

open PointerAccel.Binary

/-- A snapshot of the engine's event counters. -/
structure Counters where
  cyclesOk : UInt64
  contextUnavailable : UInt64
  preValidationFaults : UInt64
  postValidationFaults : UInt64
  reloadsApplied : UInt64
  reloadsDeferred : UInt64
  samplesMerged : UInt64
  deriving Repr, DecidableEq

namespace Counters

/-- All counters at zero. -/
def zero : Counters := ⟨0, 0, 0, 0, 0, 0, 0⟩

/-- Every processed cycle, successful or not (saturating). -/
def totalCycles (c : Counters) : UInt64 :=
  satAdd (satAdd (satAdd c.cyclesOk c.contextUnavailable) c.preValidationFaults)
    c.postValidationFaults

/-- Faults before and after validation (saturating). -/
def numericFaults (c : Counters) : UInt64 := satAdd c.preValidationFaults c.postValidationFaults

/-- Faults per processed cycle as a double, zero when nothing was processed. -/
def faultRate (c : Counters) : Float :=
  if c.totalCycles = 0 then 0.0
  else doubleOfInt c.numericFaults.toNat / doubleOfInt c.totalCycles.toNat

/-- The counter events. -/
inductive Event where
  | cycleOk
  | contextUnavailable
  | preValidationFault
  | postValidationFault
  | reloadApplied
  | reloadDeferred
  | sampleMerged
  deriving Repr, DecidableEq

/-- Count one event, wrapping at `2^64`. -/
def bump (c : Counters) : Event → Counters
  | .cycleOk => { c with cyclesOk := c.cyclesOk + 1 }
  | .contextUnavailable => { c with contextUnavailable := c.contextUnavailable + 1 }
  | .preValidationFault => { c with preValidationFaults := c.preValidationFaults + 1 }
  | .postValidationFault => { c with postValidationFaults := c.postValidationFaults + 1 }
  | .reloadApplied => { c with reloadsApplied := c.reloadsApplied + 1 }
  | .reloadDeferred => { c with reloadsDeferred := c.reloadsDeferred + 1 }
  | .sampleMerged => { c with samplesMerged := c.samplesMerged + 1 }

end Counters

end PointerAccel
