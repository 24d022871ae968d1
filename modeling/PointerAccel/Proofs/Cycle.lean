import Mathlib
import PointerAccel.Engine.Cycle

/-!
# What one cycle changes

`Engine.process` has four exits: two early ones, on either side of entering the numeric
section, and two after the rounding. This module gives every exit its own equation, so that
later proofs never unfold the cycle again, and reads off what each exit keeps.

* `process_unusable`, `process_inexact`: the early exits only buffer the sample and count it;
* `process_exact`: a cycle that passed the exactness check drains the buffer, reads the clock
  and polls for a reload before it learns whether its rounding faults;
* `early_exit_keeps_state`: the early exits leave the live set, the reload controller, the
  surface, the frame timer and the carry as they were;
* `post_validation_fault_discards_cycle`: a fault after the rounding drops the cycle's motion
  and keeps the carry, while the drain, the clock reading and the reload stay done.
-/

namespace PointerAccel

open PointerAccel.Binary

theorem FrameTimer.elapsed_lastNs (t : FrameTimer) (now : UInt64) :
    (t.elapsed now).2.lastNs = now := by
  unfold FrameTimer.elapsed
  dsimp only
  split <;> rfl

namespace Engine

/-- The part of an engine that a cycle stopped before the clock is read leaves alone: the
live set, the reload controller, the surface with its reload flag, the frame timer and the
carry. -/
structure Settled (e e' : Engine) : Prop where
  params : e'.params = e.params
  reload : e'.reload = e.reload
  surface : e'.surface = e.surface
  timer : e'.timer = e.timer
  carry : e'.carry = e.carry

variable (e : Engine) (s : RawSample)

@[simp] theorem rounding_begins (n : UInt64) :
    ({ e with begins := n } : Engine).rounding s = e.rounding s := rfl

@[simp] theorem drain_begins (n : UInt64) :
    ({ e with begins := n } : Engine).drain = { e.drain with begins := n } := rfl

@[simp] theorem drain_buffer : e.drain.buffer = EventBuffer.empty := rfl

@[simp] theorem drain_carry : e.drain.carry = e.carry := rfl

@[simp] theorem drain_timer : e.drain.timer = (e.timer.elapsed e.clockNs).2 := rfl

@[simp] theorem drain_params : e.drain.params = e.poll.live := rfl

@[simp] theorem drain_reload : e.drain.reload = e.poll.state := rfl

@[simp] theorem drain_counters : e.drain.counters = e.passCounters := rfl

theorem passCounters_postValidationFaults :
    e.passCounters.postValidationFaults = e.counters.postValidationFaults := by
  unfold passCounters
  split <;> split <;> rfl

theorem process_unusable (h : e.usable = false) :
    e.process s = (.error .contextUnavailable,
      { e with buffer := e.buffer.absorb s, counters := e.counters.bump .contextUnavailable }) := by
  simp [process, h]

/-- A sample that does not survive single precision is buffered and counted inside a
section that is entered and left. -/
theorem process_inexact (hu : e.usable = true) (hx : s.isFloatExact = false) :
    e.process s = (.error .numericFault,
      { e with begins := e.begins + 1, ends := e.ends + 1, buffer := e.buffer.absorb s,
               counters := e.counters.bump .preValidationFault }) := by
  simp [process, runSection, hu, hx]

/-- A cycle that passed the exactness check: the drained engine, then either the fault
counter or the output with the new carry. -/
theorem process_exact (hu : e.usable = true) (hx : s.isFloatExact = true) :
    e.process s =
      if (e.rounding s).isFaulted then
        (.error .numericFault,
          { e.drain with
            begins := e.begins + 1, ends := e.ends + 1,
            counters := e.passCounters.bump .postValidationFault })
      else
        (.ok (e.rounding s).output,
          { e.drain with
            begins := e.begins + 1, ends := e.ends + 1,
            counters := e.passCounters.bump .cycleOk, carry := (e.rounding s).remainder }) := by
  have hsec : (!e.usable) = false := by rw [hu]; rfl
  simp only [process, hsec, runSection, hx, Bool.not_true, Bool.false_eq_true, ↓reduceIte,
    rounding_begins, drain_begins]
  by_cases hf : (e.rounding s).isFaulted = true
  · simp only [hf, ↓reduceIte]
    rfl
  · simp only [hf]
    rfl

/-- The two early exits keep the engine intact. Without a numeric context the cycle only
buffers and counts the sample, and the section is never entered. With a context, a sample
that does not survive single precision is buffered on top of what the buffer already holds
and counted as a pre-validation fault; the clock is not read and no reload is polled. -/
theorem early_exit_keeps_state :
    (e.usable = false →
      (e.process s).1 = .error .contextUnavailable ∧
      (e.process s).2.buffer = e.buffer.absorb s ∧
      (e.process s).2.counters = e.counters.bump .contextUnavailable ∧
      Settled e (e.process s).2 ∧
      (e.process s).2.begins = e.begins ∧ (e.process s).2.ends = e.ends) ∧
    (e.usable = true → s.isFloatExact = false →
      (e.process s).1 = .error .numericFault ∧
      (e.process s).2.buffer = e.buffer.absorb s ∧
      (e.process s).2.counters = e.counters.bump .preValidationFault ∧
      Settled e (e.process s).2) := by
  constructor
  · intro hu
    rw [process_unusable e s hu]
    exact ⟨rfl, rfl, rfl, ⟨rfl, rfl, rfl, rfl, rfl⟩, rfl, rfl⟩
  · intro hu hx
    rw [process_inexact e s hu hx]
    exact ⟨rfl, rfl, rfl, ⟨rfl, rfl, rfl, rfl, rfl⟩⟩

/-- Both early exits on a fresh engine: a sample with an odd delta above `2^24` faults
before the merge, and any sample is only buffered once the context is gone. -/
theorem early_exits_of_fresh_engine :
    (Engine.init ParamSet.default Surface.new 0 true).usable = true ∧
      RawSample.isFloatExact ⟨16777217, 0, 0⟩ = false ∧
      ((Engine.init ParamSet.default Surface.new 0 true).process ⟨16777217, 0, 0⟩).1 =
        .error .numericFault ∧
      (Engine.init ParamSet.default Surface.new 0 false).usable = false ∧
      ((Engine.init ParamSet.default Surface.new 0 false).process ⟨1, 2, 3⟩).1 =
        .error .contextUnavailable :=
  ⟨rfl, by decide,
    ((early_exit_keeps_state _ _).2 rfl (by decide)).1, rfl,
    ((early_exit_keeps_state _ _).1 rfl).1⟩

/-- A fault after the rounding discards exactly the cycle. The gain and the rounding use
the set that this cycle's own reload poll leaves live; the cycle faults if and only if that
rounding hits the sentinel, and then the carry is kept, the drained motion is dropped, the
frame timer has moved to the clock reading and an applied reload stays live. Otherwise the
output is the rounding and the carry becomes its remainder. -/
theorem post_validation_fault_discards_cycle (hu : e.usable = true)
    (hx : s.isFloatExact = true) :
    let m := merge s e.buffer
    let live := (pollReload e.held e.surface e.reload e.clockNs e.params).live
    let c := e.carry.apply m.1 m.2.1 m.2.2 (gain m.1 m.2.1 (e.timer.elapsed e.clockNs).1 live) live
    ((e.process s).1 = .error .numericFault ↔ c.isFaulted = true) ∧
    (c.isFaulted = true →
      (e.process s).2.carry = e.carry ∧ (e.process s).2.buffer = EventBuffer.empty ∧
      (e.process s).2.timer = (e.timer.elapsed e.clockNs).2 ∧
      (e.process s).2.timer.lastNs = e.clockNs ∧
      (e.process s).2.params = live ∧
      (e.process s).2.reload = (pollReload e.held e.surface e.reload e.clockNs e.params).state ∧
      (e.process s).2.counters.postValidationFaults = e.counters.postValidationFaults + 1) ∧
    (c.isFaulted = false →
      (e.process s).1 = .ok c.output ∧ (e.process s).2.carry = c.remainder) := by
  intro m live c
  have hc : c = e.rounding s := rfl
  rw [hc, process_exact e s hu hx]
  refine ⟨?_, ?_, ?_⟩
  · cases hf : (e.rounding s).isFaulted <;> simp
  · intro hf
    simp only [hf, if_true]
    refine ⟨rfl, rfl, rfl, FrameTimer.elapsed_lastNs _ _, rfl, rfl, ?_⟩
    simp [Counters.bump, passCounters_postValidationFaults]
  · intro hf
    simp only [hf]
    exact ⟨rfl, rfl⟩

/-- A live sensitivity of minus infinity sends every moving sample to the sentinel: the
cycle faults and the carry stays where it was. -/
theorem infinite_sensitivity_discards_cycle :
    (Engine.init { ParamSet.default with sensitivity := -singleInf } Surface.new 0 true).usable =
        true ∧
      RawSample.isFloatExact ⟨1, 0, 0⟩ = true ∧
      ((Engine.init { ParamSet.default with sensitivity := -singleInf } Surface.new 0 true).process
        ⟨1, 0, 0⟩).1 = .error .numericFault := by
  refine ⟨rfl, by decide, ?_⟩
  exact (post_validation_fault_discards_cycle _ _ rfl (by decide)).1.2 (by decide +kernel)

end Engine

end PointerAccel
