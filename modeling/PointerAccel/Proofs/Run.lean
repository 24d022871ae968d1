import Mathlib
import PointerAccel.Proofs.Cycle

/-!
# Runs of host operations

A host drives an engine by a list of `HostOp`s: it moves the clock, switches the numeric
context, writes to the surface and hands over samples, in any order. The laws about whole
runs speak of the process calls of a run, each with the engine it found; `calls` lists
them, and a call's outcome is a function of that engine and the sample.

* `run_append`, `calls_append`: a run split in two is the second part run from the end of
  the first, so every law is proved by adding one operation at the end of a run;
* `perform_frame`: an operation other than `process` touches only the clock, the context
  flag and the surface.
-/

namespace PointerAccel.Engine

/-- One process call of a run: the engine it found and the sample it was handed. -/
structure Call where
  engine : Engine
  sample : RawSample

namespace Call

/-- Whether the call got past the exactness check: the context could be entered and every
delta survives single precision. -/
def passes (c : Call) : Bool := c.engine.usable && c.sample.isFloatExact

/-- What the call returned. -/
def result (c : Call) : Except CycleError RawSample := (c.engine.process c.sample).1

/-- The engine the call left behind. -/
def after (c : Call) : Engine := (c.engine.process c.sample).2

end Call

/-- The process calls of a run, in order. -/
def calls : Engine → List HostOp → List Call
  | _, [] => []
  | e, op :: ops =>
    match op with
    | .process s => ⟨e, s⟩ :: calls (e.perform op).2 ops
    | _ => calls (e.perform op).2 ops

@[simp] theorem run_nil (e : Engine) : e.run [] = e := rfl

@[simp] theorem run_cons (e : Engine) (op : HostOp) (ops : List HostOp) :
    e.run (op :: ops) = (e.perform op).2.run ops := rfl

theorem run_append (e : Engine) (ops ops' : List HostOp) :
    e.run (ops ++ ops') = (e.run ops).run ops' := by
  simp [run, List.foldl_append]

@[simp] theorem perform_process (e : Engine) (s : RawSample) :
    (e.perform (.process s)).2 = (e.process s).2 := rfl

@[simp] theorem calls_nil (e : Engine) : e.calls [] = [] := rfl

theorem calls_cons_process (e : Engine) (s : RawSample) (ops : List HostOp) :
    e.calls (.process s :: ops) = ⟨e, s⟩ :: (e.process s).2.calls ops := rfl

theorem calls_single (e : Engine) (op : HostOp) :
    e.calls [op] = match op with
      | .process s => [⟨e, s⟩]
      | _ => [] := by
  cases op <;> rfl

theorem calls_append (e : Engine) (ops ops' : List HostOp) :
    e.calls (ops ++ ops') = e.calls ops ++ (e.run ops).calls ops' := by
  induction ops generalizing e with
  | nil => rfl
  | cons op ops ih => cases op <;> simp [calls, ih]

/-- What the host changes without handing over a sample: the clock, the context flag and
the surface. -/
structure HostFrame (e e' : Engine) : Prop where
  begins : e'.begins = e.begins
  ends : e'.ends = e.ends
  params : e'.params = e.params
  reload : e'.reload = e.reload
  timer : e'.timer = e.timer
  carry : e'.carry = e.carry
  buffer : e'.buffer = e.buffer
  counters : e'.counters = e.counters

theorem perform_frame (e : Engine) (op : HostOp) (h : ∀ s, op ≠ .process s) :
    HostFrame e (e.perform op).2 := by
  cases op with
  | process s => exact absurd rfl (h s)
  | _ => exact ⟨rfl, rfl, rfl, rfl, rfl, rfl, rfl, rfl⟩

theorem run_snoc_cases (e : Engine) (ops : List HostOp) (op : HostOp) :
    (∃ s, op = .process s ∧ e.calls (ops ++ [op]) = e.calls ops ++ [⟨e.run ops, s⟩] ∧
      e.run (ops ++ [op]) = ((e.run ops).process s).2) ∨
    (e.calls (ops ++ [op]) = e.calls ops ∧ HostFrame (e.run ops) (e.run (ops ++ [op]))) := by
  rw [calls_append, run_append, calls_single]
  cases op with
  | process s => exact .inl ⟨s, rfl, rfl, rfl⟩
  | setClock ns => exact .inr ⟨by simp, perform_frame _ _ (by simp)⟩
  | setUsable b => exact .inr ⟨by simp, perform_frame _ _ (by simp)⟩
  | setHeld b => exact .inr ⟨by simp, perform_frame _ _ (by simp)⟩
  | edit w => exact .inr ⟨by simp, perform_frame _ _ (by simp)⟩

end PointerAccel.Engine
