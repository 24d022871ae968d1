import Mathlib
import PointerAccel.Proofs.Carry
import PointerAccel.Proofs.Reload

/-!
# Every call is accounted for

A cycle has four exits, and each leaves its mark in exactly one outcome counter; the numeric
section, once entered, is left on every one of the three exits after the entry. Both facts are
statements about counting calls, and are proved the same way: a quantity that only process
calls move, each by one exactly when the call has some property, counts the calls of a run
with that property.

* `count_along_run`: that counting argument, once for every counter of the engine;
* `Call.count_after`: the one step lemma for the event counters, read off the call's result
  and its reload poll;
* `section_is_balanced`: a call enters and leaves the section once when the context is
  usable and never otherwise, so the two counts agree after every call of any run;
* `counters_account_for_every_call`: from zero counters and fewer than `2^64` calls, the
  outcome counters count the calls by what they returned, the pre-validation counter the
  faults returned before the buffer was drained, and the reload counters the polls, which
  only the calls past the exactness check make.
-/

namespace PointerAccel

namespace Counters

/-- The counter of an event. -/
def count (c : Counters) : Event → UInt64
  | .cycleOk => c.cyclesOk
  | .contextUnavailable => c.contextUnavailable
  | .preValidationFault => c.preValidationFaults
  | .postValidationFault => c.postValidationFaults
  | .reloadApplied => c.reloadsApplied
  | .reloadDeferred => c.reloadsDeferred
  | .sampleMerged => c.samplesMerged

@[simp] theorem count_bump (c : Counters) (ev ev' : Event) :
    (c.bump ev).count ev' = c.count ev' + if ev = ev' then 1 else 0 := by
  cases ev <;> cases ev' <;> simp [bump, count]

@[simp] theorem count_zero (ev : Event) : Counters.zero.count ev = 0 := by
  cases ev <;> rfl

end Counters

namespace Engine

/-! ## Counting calls along a run -/

theorem exists_run_of_mem_calls {e : Engine} {ops : List HostOp} {c : Call}
    (h : c ∈ e.calls ops) : ∃ pre : List HostOp, c.engine = e.run pre := by
  induction ops generalizing e with
  | nil => simp at h
  | cons op ops ih =>
    cases op with
    | process s =>
      rcases List.mem_cons.1 h with rfl | h
      · exact ⟨[], rfl⟩
      · obtain ⟨pre, hpre⟩ := ih h
        exact ⟨.process s :: pre, hpre⟩
    | setClock ns =>
      obtain ⟨pre, hpre⟩ := ih h
      exact ⟨.setClock ns :: pre, hpre⟩
    | setUsable b =>
      obtain ⟨pre, hpre⟩ := ih h
      exact ⟨.setUsable b :: pre, hpre⟩
    | setHeld b =>
      obtain ⟨pre, hpre⟩ := ih h
      exact ⟨.setHeld b :: pre, hpre⟩
    | edit w =>
      obtain ⟨pre, hpre⟩ := ih h
      exact ⟨.edit w :: pre, hpre⟩

/-- A quantity that the other host operations leave alone, and that a call moves by one
exactly when the call has the property `P`, has grown over a run by the number of its calls
with `P` (modulo `2^64`). -/
theorem count_along_run (f : Engine → UInt64) (P : Call → Bool)
    (hhost : ∀ e e', HostFrame e e' → f e' = f e)
    (hstep : ∀ c : Call, f c.after = f c.engine + if P c then 1 else 0)
    (e : Engine) (ops : List HostOp) :
    f (e.run ops) = f e + UInt64.ofNat ((e.calls ops).filter P).length := by
  induction ops using List.reverseRecOn with
  | nil => simp
  | append_singleton ops op ih =>
    rcases run_snoc_cases e ops op with ⟨s, -, hc, hr⟩ | ⟨hc, hf⟩
    · have hs := hstep ⟨e.run ops, s⟩
      change f (e.run ops |>.process s).2 = _ at hs
      rw [hr, hc, hs, ih, List.filter_append, List.length_append, List.filter_singleton]
      cases P ⟨e.run ops, s⟩ <;> simp [UInt64.add_assoc]
    · rw [hc, hhost _ _ hf, ih]

theorem toNat_zero_add_ofNat {n : Nat} (h : n < 2 ^ 64) : (0 + UInt64.ofNat n).toNat = n := by
  rw [UInt64.zero_add, UInt64.toNat_ofNat_of_lt' h]

/-! ## The numeric section -/

theorem process_begins (e : Engine) (s : RawSample) :
    (e.process s).2.begins = e.begins + if e.usable then 1 else 0 := by
  cases hu : e.usable
  · rw [process_unusable e s hu]
    simp
  · cases hx : s.isFloatExact
    · rw [process_inexact e s hu hx]
      simp
    · rw [process_exact e s hu hx]
      split <;> simp

theorem process_ends (e : Engine) (s : RawSample) :
    (e.process s).2.ends = e.ends + if e.usable then 1 else 0 := by
  cases hu : e.usable
  · rw [process_unusable e s hu]
    simp
  · cases hx : s.isFloatExact
    · rw [process_inexact e s hu hx]
      simp
    · rw [process_exact e s hu hx]
      split <;> simp

theorem begins_along_run (e : Engine) (ops : List HostOp) :
    (e.run ops).begins = e.begins +
      UInt64.ofNat ((e.calls ops).filter fun c => c.engine.usable).length :=
  count_along_run Engine.begins (fun c => c.engine.usable) (fun _ _ hf => hf.begins)
    (fun c => process_begins c.engine c.sample) e ops

theorem ends_along_run (e : Engine) (ops : List HostOp) :
    (e.run ops).ends = e.ends +
      UInt64.ofNat ((e.calls ops).filter fun c => c.engine.usable).length :=
  count_along_run Engine.ends (fun c => c.engine.usable) (fun _ _ hf => hf.ends)
    (fun c => process_ends c.engine c.sample) e ops

/-- The numeric section is balanced on every path. From an engine whose begin and end counts
agree, after any run (any availability pattern, any samples, any clock and surface activity)
the counts agree, both having grown by the number of calls that found the context usable;
and every call of the run leaves them equal, each one higher than it found them if the
context was usable and unchanged otherwise. -/
theorem section_is_balanced (e : Engine) (ops : List HostOp) (h : e.begins = e.ends) :
    (e.run ops).begins = (e.run ops).ends ∧
    (e.run ops).begins = e.begins +
      UInt64.ofNat ((e.calls ops).filter fun c => c.engine.usable).length ∧
    ∀ c ∈ e.calls ops, c.after.begins = c.after.ends ∧
      c.after.begins = (if c.engine.usable then c.engine.begins + 1 else c.engine.begins) ∧
      c.after.ends = (if c.engine.usable then c.engine.ends + 1 else c.engine.ends) := by
  have hrun : ∀ pre : List HostOp, (e.run pre).begins = (e.run pre).ends := fun pre => by
    rw [begins_along_run, ends_along_run, h]
  refine ⟨hrun ops, begins_along_run e ops, fun c hc => ?_⟩
  obtain ⟨pre, hpre⟩ := exists_run_of_mem_calls hc
  have hb := process_begins c.engine c.sample
  have he := process_ends c.engine c.sample
  have hbal : c.engine.begins = c.engine.ends := hpre ▸ hrun pre
  rw [show c.after = (c.engine.process c.sample).2 from rfl, hb, he, hbal]
  cases c.engine.usable <;> simp

/-- From a fresh engine, a call with the context, a call without it and another with it
leave the section balanced. -/
theorem section_balanced_across_outage :
    let e := Engine.init ParamSet.default Surface.new 0 true
    let ops := [HostOp.process ⟨1, 0, 0⟩, .setUsable false, .process ⟨2, 0, 0⟩,
      .setUsable true, .process ⟨16777217, 0, 0⟩]
    e.begins = e.ends ∧ (e.run ops).begins = (e.run ops).ends ∧
      (e.run ops).begins = e.begins +
        UInt64.ofNat ((e.calls ops).filter fun c => c.engine.usable).length :=
  ⟨rfl, (section_is_balanced _ _ rfl).1, (section_is_balanced _ _ rfl).2.1⟩

/-! ## The event counters -/

namespace Call

/-- Whether the call failed with the given error. -/
def failedWith (c : Call) (err : CycleError) : Bool := c.result == .error err

/-- Whether the call counts an event, read off what it returned and, for the events of a
call past the exactness check, off the buffer it drained and its reload poll. -/
def counts (c : Call) : Counters.Event → Bool
  | .cycleOk => c.isOk
  | .contextUnavailable => c.failedWith .contextUnavailable
  | .preValidationFault => c.failedWith .numericFault && !c.passes
  | .postValidationFault => c.failedWith .numericFault && c.passes
  | .reloadApplied => c.passes && c.engine.poll.outcome == .applied
  | .reloadDeferred => c.passes && c.engine.poll.outcome.isDeferred
  | .sampleMerged => c.passes && !c.engine.buffer.isEmpty

end Call

theorem passCounters_count (e : Engine) (ev : Counters.Event) :
    e.passCounters.count ev = e.counters.count ev +
      ((if ev = .sampleMerged ∧ e.buffer.isEmpty = false then 1 else 0) +
        (if ev = .reloadApplied ∧ e.poll.outcome = .applied then 1 else 0) +
        (if ev = .reloadDeferred ∧ e.poll.outcome.isDeferred = true then 1 else 0)) := by
  unfold passCounters
  cases hb : e.buffer.isEmpty <;> cases ho : e.poll.outcome <;> cases ev <;>
    simp [ReloadOutcome.isDeferred]

/-- What one call does to the counter of an event: one more exactly when the call counts
the event. -/
theorem Call.count_after (c : Call) (ev : Counters.Event) :
    c.after.counters.count ev = c.engine.counters.count ev + if c.counts ev then 1 else 0 := by
  change (c.engine.process c.sample).2.counters.count ev = _
  cases hu : c.engine.usable
  · have hr : c.result = .error .contextUnavailable := by
      unfold Call.result
      rw [process_unusable c.engine c.sample hu]
    rw [process_unusable c.engine c.sample hu]
    cases ev <;> simp [Call.counts, Call.isOk, Except.isOk, Except.toBool, Call.failedWith,
      Call.passes, hr, hu]
  · cases hx : c.sample.isFloatExact
    · have hr : c.result = .error .numericFault := by
        unfold Call.result
        rw [process_inexact c.engine c.sample hu hx]
      rw [process_inexact c.engine c.sample hu hx]
      cases ev <;> simp [Call.counts, Call.isOk, Except.isOk, Except.toBool, Call.failedWith,
        Call.passes, hr, hu, hx]
    · have hp : c.passes = true := by simp [Call.passes, hu, hx]
      have hr := congrArg Prod.fst (process_exact c.engine c.sample hu hx)
      change c.result = _ at hr
      rw [process_exact c.engine c.sample hu hx]
      have hpc := passCounters_count c.engine
      cases hf : (c.engine.rounding c.sample).isFaulted <;>
        simp only [hf, Bool.false_eq_true, if_false, if_true] at hr ⊢ <;>
        cases ev <;>
        simp [Call.counts, Call.isOk, Except.isOk, Except.toBool, Call.failedWith, hp, hr, hpc]

theorem count_counters_along_run (e : Engine) (ops : List HostOp) (ev : Counters.Event) :
    (e.run ops).counters.count ev =
      e.counters.count ev + UInt64.ofNat ((e.calls ops).filter (·.counts ev)).length :=
  count_along_run (fun e => e.counters.count ev) (·.counts ev)
    (fun _ _ hf => by simp only [hf.counters]) (fun c => c.count_after ev) e ops

theorem Call.outcome_counts (c : Call) :
    (if c.counts .cycleOk then 1 else 0) + (if c.counts .contextUnavailable then 1 else 0) +
      (if c.counts .preValidationFault then 1 else 0) +
      (if c.counts .postValidationFault then 1 else 0) = 1 := by
  unfold Call.counts Call.isOk Call.failedWith
  cases c.result with
  | ok out => simp [Except.isOk, Except.toBool]
  | error err => cases err <;> cases c.passes <;> simp [Except.isOk, Except.toBool]

theorem outcome_counts_length (cs : List Call) :
    (cs.filter (·.counts .cycleOk)).length + (cs.filter (·.counts .contextUnavailable)).length +
      (cs.filter (·.counts .preValidationFault)).length +
      (cs.filter (·.counts .postValidationFault)).length = cs.length := by
  induction cs with
  | nil => rfl
  | cons c cs ih =>
    have h := c.outcome_counts
    simp only [List.filter_cons, List.length_cons]
    split <;> split <;> split <;> split <;> simp_all <;> omega

theorem Call.controller_after (c : Call) :
    c.after.controller =
      if c.passes then ⟨c.engine.poll.surface, c.engine.poll.state, c.engine.poll.live⟩
      else c.engine.controller :=
  process_controller c.engine c.sample

/-- Counters account for every call. Over any run of fewer than `2^64` calls from an engine
whose counters start at zero: the successful cycles, the unavailable contexts and the two
fault counters count the calls that returned an output, `ContextUnavailable` and
`NumericFault`, so the total is the number of calls; the pre-validation counter counts the
faults of calls that stopped at the exactness check, which buffer their sample where every
other call drains the buffer; the reload counters count the polls that applied and those that
were debounced or contended; and only a call past the exactness check polls, every other call
leaving the reload controller as it found it. -/
theorem counters_account_for_every_call (e : Engine) (ops : List HostOp)
    (h0 : e.counters = Counters.zero) (hlen : (e.calls ops).length < 2 ^ 64) :
    let cs := e.calls ops
    let k := (e.run ops).counters
    k.cyclesOk.toNat = (cs.filter fun c => c.result.isOk).length ∧
    k.contextUnavailable.toNat =
      (cs.filter fun c => c.result == .error .contextUnavailable).length ∧
    k.preValidationFaults.toNat + k.postValidationFaults.toNat =
      (cs.filter fun c => c.result == .error .numericFault).length ∧
    k.totalCycles.toNat = cs.length ∧
    k.preValidationFaults.toNat =
      (cs.filter fun c => c.result == .error .numericFault && !c.passes).length ∧
    k.reloadsApplied.toNat =
      (cs.filter fun c => c.passes && c.engine.poll.outcome == .applied).length ∧
    k.reloadsDeferred.toNat =
      (cs.filter fun c => c.passes && c.engine.poll.outcome.isDeferred).length ∧
    ∀ c ∈ cs,
      c.after.buffer = (if c.passes then EventBuffer.empty else c.engine.buffer.absorb c.sample) ∧
      c.after.controller =
        if c.passes then ⟨c.engine.poll.surface, c.engine.poll.state, c.engine.poll.live⟩
        else c.engine.controller := by
  intro cs k
  have hk : ∀ ev, (k.count ev).toNat = (cs.filter (·.counts ev)).length := fun ev => by
    have hle : (cs.filter (·.counts ev)).length < 2 ^ 64 :=
      lt_of_le_of_lt (List.length_filter_le _ _) hlen
    change ((e.run ops).counters.count ev).toNat = _
    rw [count_counters_along_run, h0, Counters.count_zero, toNat_zero_add_ofNat hle]
  have hpart := outcome_counts_length cs
  have hfaults : (cs.filter (·.counts .preValidationFault)).length +
      (cs.filter (·.counts .postValidationFault)).length =
      (cs.filter fun c => c.result == .error .numericFault).length := by
    have hsplit := List.length_eq_length_filter_add Call.passes
      (l := cs.filter fun c => c.result == .error .numericFault)
    rw [List.filter_filter, List.filter_filter] at hsplit
    have hpre : (fun c : Call => c.counts .preValidationFault) =
        fun c => !c.passes && c.result == .error .numericFault := by
      funext c
      simp [Call.counts, Call.failedWith, Bool.and_comm]
    have hpost : (fun c : Call => c.counts .postValidationFault) =
        fun c => c.passes && c.result == .error .numericFault := by
      funext c
      simp [Call.counts, Call.failedWith, Bool.and_comm]
    rw [hpre, hpost, hsplit, add_comm]
  refine ⟨hk .cycleOk, hk .contextUnavailable, ?_, ?_, hk .preValidationFault,
    hk .reloadApplied, hk .reloadDeferred, fun c _ => ⟨process_buffer c.engine c.sample,
      c.controller_after⟩⟩
  · rw [show k.preValidationFaults = k.count .preValidationFault from rfl,
      show k.postValidationFaults = k.count .postValidationFault from rfl, hk, hk, hfaults]
  · have h1 := hk .cycleOk
    have h2 := hk .contextUnavailable
    have h3 := hk .preValidationFault
    have h4 := hk .postValidationFault
    simp only [Counters.count] at h1 h2 h3 h4
    have hcs : cs.length < 2 ^ 64 := hlen
    unfold Counters.totalCycles
    rw [satAdd_toNat, satAdd_toNat, satAdd_toNat, h1, h2, h3, h4]
    omega

/-- From a fresh engine with a pending reload: a call without the context, a pre-validation
fault, a good cycle while a writer holds the surface's strings, so that its poll is contended
and the request stays pending, and two good cycles once the writer lets go, the first of which
applies the reload. The counters add up to the five calls, and the deferred counter counts the
contended poll. -/
theorem counters_after_mixed_run :
    let e := Engine.init ParamSet.default Surface.new.requestReload 0 false
    let ops := [HostOp.process ⟨1, 0, 0⟩, .setUsable true, .process ⟨16777217, 0, 0⟩,
      .setHeld true, .process ⟨1, 0, 0⟩, .setHeld false, .process ⟨1, 0, 0⟩, .process ⟨0, 1, 0⟩]
    e.counters = Counters.zero ∧ (e.calls ops).length < 2 ^ 64 ∧
      (e.run ops).counters.totalCycles.toNat = (e.calls ops).length ∧
      (e.run ops).counters.reloadsApplied.toNat =
        ((e.calls ops).filter fun c => c.passes && c.engine.poll.outcome == .applied).length ∧
      (e.run ops).counters.reloadsDeferred.toNat =
        ((e.calls ops).filter fun c => c.passes && c.engine.poll.outcome.isDeferred).length ∧
      ((e.calls ops).filter fun c => c.passes && c.engine.poll.outcome == .contended).length = 1 :=
  let h := counters_account_for_every_call (Engine.init ParamSet.default
    Surface.new.requestReload 0 false) [HostOp.process ⟨1, 0, 0⟩, .setUsable true,
      .process ⟨16777217, 0, 0⟩, .setHeld true, .process ⟨1, 0, 0⟩, .setHeld false,
      .process ⟨1, 0, 0⟩, .process ⟨0, 1, 0⟩] rfl (by decide)
  ⟨rfl, by decide, h.2.2.2.1, h.2.2.2.2.2.1, h.2.2.2.2.2.2.1, by decide +kernel⟩

end Engine

end PointerAccel
