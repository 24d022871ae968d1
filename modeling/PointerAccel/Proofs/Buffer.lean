import Mathlib
import PointerAccel.Proofs.Run

/-!
# No motion is lost or counted twice

The buffer is fed by both early exits and drained by every cycle that gets past the
exactness check, even when that cycle then faults after the rounding. Over any run from a
fresh engine:

* `buffer_holds_unmerged`: the buffer is the saturating sum of exactly the samples handed
  over since the last call that got past the check;
* `inputs_conserved`: as long as no buffered sum saturates, the inputs on an axis add up to
  the buffer plus, over the calls that got past the check, their sample and the buffer they
  drained;
* `samplesMerged_counts`: the merge counter counts the passing calls that found the buffer
  non-empty.

Motion that cancels (`5` then `-5`) leaves the buffer empty without being unused: the first
law still names those samples, and the merge counter skips the call that drains them.
-/

namespace PointerAccel

/-- The three axes of motion. -/
inductive Axis where
  | x
  | y
  | wheel
  deriving DecidableEq

/-- A sample's delta along an axis. -/
def RawSample.along (s : RawSample) : Axis → Int
  | .x => s.dx.toInt
  | .y => s.dy.toInt
  | .wheel => s.dwheel.toInt

/-- A buffer's sum along an axis. -/
def EventBuffer.along (b : EventBuffer) : Axis → Int
  | .x => b.x.toInt
  | .y => b.y.toInt
  | .wheel => b.wheel.toInt

/-- The signed 64-bit range. -/
def InI64 (z : Int) : Prop := -9223372036854775808 ≤ z ∧ z ≤ 9223372036854775807

instance (z : Int) : Decidable (InI64 z) := inferInstanceAs (Decidable (_ ∧ _))

theorem clampI64_toInt_of_inI64 {z : Int} (h : InI64 z) : (clampI64 z).toInt = z := by
  unfold clampI64
  rw [Int64.toInt_ofInt_of_le] <;> simp only [InI64] at h <;> omega

@[simp] theorem EventBuffer.absorb_along (b : EventBuffer) (s : RawSample) (a : Axis) :
    (b.absorb s).along a = (clampI64 (b.along a + s.along a)).toInt := by
  cases a <;> rfl

@[simp] theorem EventBuffer.empty_along (a : Axis) : EventBuffer.empty.along a = 0 := by
  cases a <;> rfl

namespace Engine

theorem process_buffer (e : Engine) (s : RawSample) :
    (e.process s).2.buffer =
      if e.usable && s.isFloatExact then EventBuffer.empty else e.buffer.absorb s := by
  cases hu : e.usable
  · rw [process_unusable e s hu]
    rfl
  · cases hx : s.isFloatExact
    · rw [process_inexact e s hu hx]
      rfl
    · rw [process_exact e s hu hx]
      split <;> rfl

theorem passCounters_samplesMerged (e : Engine) :
    e.passCounters.samplesMerged =
      if e.buffer.isEmpty then e.counters.samplesMerged else e.counters.samplesMerged + 1 := by
  unfold passCounters
  split <;> split <;> rfl

theorem process_samplesMerged (e : Engine) (s : RawSample) :
    (e.process s).2.counters.samplesMerged =
      if e.usable && s.isFloatExact && !e.buffer.isEmpty then e.counters.samplesMerged + 1
      else e.counters.samplesMerged := by
  cases hu : e.usable
  · rw [process_unusable e s hu]
    rfl
  · cases hx : s.isFloatExact
    · rw [process_inexact e s hu hx]
      rfl
    · rw [process_exact e s hu hx]
      have hm := passCounters_samplesMerged e
      split <;> cases hb : e.buffer.isEmpty <;> simp_all [Counters.bump]

/-- The samples of the calls after the last one that got past the exactness check, oldest
first. -/
def unmerged (cs : List Call) : List RawSample :=
  ((cs.reverse.takeWhile fun c => !c.passes).reverse).map Call.sample

theorem unmerged_snoc (cs : List Call) (c : Call) :
    unmerged (cs ++ [c]) = if c.passes then [] else unmerged cs ++ [c.sample] := by
  cases hc : c.passes <;> simp [unmerged, hc]

/-- After any run from an empty buffer, the buffer is the saturating sum of the samples
handed over since the last call that got past the exactness check. -/
theorem buffer_holds_unmerged (e : Engine) (ops : List HostOp)
    (h : e.buffer = EventBuffer.empty) :
    (e.run ops).buffer = (unmerged (e.calls ops)).foldl EventBuffer.absorb EventBuffer.empty := by
  induction ops using List.reverseRecOn with
  | nil => exact h
  | append_singleton ops op ih =>
    rcases run_snoc_cases e ops op with ⟨s, -, hc, hr⟩ | ⟨hc, hf⟩
    · rw [hr, hc, unmerged_snoc, process_buffer]
      by_cases hp : (e.run ops).usable && s.isFloatExact
      · have hcp : Call.passes ⟨e.run ops, s⟩ = true := hp
        rw [if_pos hp, if_pos hcp]
        rfl
      · have hcp : Call.passes ⟨e.run ops, s⟩ = false := Bool.eq_false_iff.mpr hp
        rw [if_neg hp, ih]
        simp only [hcp, Bool.false_eq_true, ↓reduceIte, List.foldl_append, List.foldl_cons,
          List.foldl_nil]
    · rw [hc, hf.buffer, ih]

/-- Motion is conserved along an axis as long as no buffered sum saturates: what was in the
buffer plus every input equals what is in the buffer now plus, over the calls that got past
the exactness check, their sample and the buffer they drained. -/
theorem inputs_conserved (e : Engine) (ops : List HostOp) (a : Axis)
    (h : ∀ c ∈ e.calls ops, c.passes = false → InI64 (c.engine.buffer.along a + c.sample.along a)) :
    e.buffer.along a + ((e.calls ops).map fun c => c.sample.along a).sum =
      (e.run ops).buffer.along a +
        (((e.calls ops).filter Call.passes).map fun c => c.sample.along a + c.engine.buffer.along a).sum := by
  induction ops using List.reverseRecOn with
  | nil => simp
  | append_singleton ops op ih =>
    rcases run_snoc_cases e ops op with ⟨s, -, hc, hr⟩ | ⟨hc, hf⟩
    · rw [hc] at h
      have ih := ih fun c hm => h c (List.mem_append_left _ hm)
      rw [hr, hc, process_buffer]
      by_cases hp : (e.run ops).usable && s.isFloatExact
      · have hcp : Call.passes ⟨e.run ops, s⟩ = true := hp
        rw [if_pos hp]
        simp only [List.map_append, List.sum_append, List.filter_append, List.filter_singleton,
          hcp, cond_true, List.map_singleton, List.sum_singleton, EventBuffer.empty_along]
        omega
      · have hcp : Call.passes ⟨e.run ops, s⟩ = false := Bool.eq_false_iff.mpr hp
        have hin := h ⟨e.run ops, s⟩ (List.mem_append_right _ (List.mem_singleton_self _)) hcp
        rw [if_neg hp, EventBuffer.absorb_along, clampI64_toInt_of_inI64 hin]
        simp only [List.map_append, List.sum_append, List.filter_append, List.filter_singleton,
          hcp, cond_false, List.map_nil, List.sum_nil, List.map_singleton, List.sum_singleton]
        omega
    · rw [hc] at h ⊢
      rw [hf.buffer]
      exact ih h

/-- The merge counter counts exactly the passing calls that found the buffer non-empty
(modulo `2^64`, as the counter wraps). -/
theorem samplesMerged_counts (e : Engine) (ops : List HostOp) :
    (e.run ops).counters.samplesMerged = e.counters.samplesMerged +
      UInt64.ofNat ((e.calls ops).filter fun c => c.passes && !c.engine.buffer.isEmpty).length := by
  induction ops using List.reverseRecOn with
  | nil => simp
  | append_singleton ops op ih =>
    rcases run_snoc_cases e ops op with ⟨s, -, hc, hr⟩ | ⟨hc, hf⟩
    · rw [hr, hc, process_samplesMerged, List.filter_append, List.length_append, ih]
      by_cases hp : (e.run ops).usable && s.isFloatExact && !(e.run ops).buffer.isEmpty
      · have hcp : (Call.passes ⟨e.run ops, s⟩ && !(e.run ops).buffer.isEmpty) = true := hp
        rw [if_pos hp, List.filter_singleton, hcp]
        simp [UInt64.add_assoc]
      · have hcp : (Call.passes ⟨e.run ops, s⟩ && !(e.run ops).buffer.isEmpty) = false :=
          Bool.eq_false_iff.mpr hp
        rw [if_neg hp, List.filter_singleton, hcp]
        simp
    · rw [hc, hf.counters, ih]

/-- No motion is lost or duplicated between the buffer and the cycles. On a fresh engine,
after any run (any pattern of context availability, any samples, any clock and surface
activity): the buffer is the saturating sum of the samples since the last call that got
past the exactness check; when no buffered sum saturates on an axis, the inputs on that
axis add up to the buffer plus the motion merged by the passing calls; and the merge counter
counts the passing calls that found the buffer non-empty. -/
theorem motion_is_never_lost (p : ParamSet) (surface : Surface) (clock : UInt64) (usable : Bool)
    (ops : List HostOp) :
    let e := Engine.init p surface clock usable
    (e.run ops).buffer = (unmerged (e.calls ops)).foldl EventBuffer.absorb EventBuffer.empty ∧
    (∀ a : Axis,
      (∀ c ∈ e.calls ops, c.passes = false → InI64 (c.engine.buffer.along a + c.sample.along a)) →
      ((e.calls ops).map fun c => c.sample.along a).sum =
        (e.run ops).buffer.along a +
          (((e.calls ops).filter Call.passes).map fun c =>
            c.sample.along a + c.engine.buffer.along a).sum) ∧
    (e.run ops).counters.samplesMerged =
      UInt64.ofNat ((e.calls ops).filter fun c => c.passes && !c.engine.buffer.isEmpty).length := by
  intro e
  refine ⟨buffer_holds_unmerged e ops rfl, fun a h => ?_, ?_⟩
  · have hc := inputs_conserved e ops a h
    rw [show e.buffer.along a = 0 from EventBuffer.empty_along a, zero_add] at hc
    exact hc
  · rw [samplesMerged_counts]
    exact zero_add _

/-- Motion buffered while the context is gone and by a pre-validation fault comes out once,
in the first call that gets past the check. -/
theorem buffered_motion_merges_once :
    let e := Engine.init ParamSet.default Surface.new 0 false
    let ops := [HostOp.process ⟨3, 0, 0⟩, .setUsable true, .process ⟨16777217, 0, 0⟩,
      .process ⟨1, 0, 0⟩]
    (∀ c ∈ e.calls ops, c.passes = false →
      InI64 (c.engine.buffer.along .x + c.sample.along .x)) ∧
    ((e.calls ops).map fun c => c.sample.along .x).sum =
      (e.run ops).buffer.along .x +
        (((e.calls ops).filter Call.passes).map fun c =>
          c.sample.along .x + c.engine.buffer.along .x).sum := by
  intro e ops
  have hyp : ∀ c ∈ e.calls ops, c.passes = false →
      InI64 (c.engine.buffer.along .x + c.sample.along .x) := by
    decide +kernel
  exact ⟨hyp, (motion_is_never_lost _ _ _ _ ops).2.1 .x hyp⟩

end Engine

end PointerAccel
