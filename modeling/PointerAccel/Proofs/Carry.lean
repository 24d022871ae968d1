import Mathlib
import PointerAccel.Proofs.Buffer
import PointerAccel.Proofs.Single.Rounding

/-!
# Fractional motion is carried, not lost

Each cycle that gets an output scales the merged motion, adds the pointer carry, rounds half
away from zero, and keeps `x - round x` as the new carry. Read as rationals, with
`singleRat`, the split is exact and the remainder is at most one half; every other cycle
leaves the carry alone. Over a run the carries telescope:

* `toOutput_split`: an axis that does not round to the sentinel emits the integer part of its
  rounding and keeps the exact rest, at most one half;
* `process_carry`: what a cycle does to the carry;
* `carry_telescopes`, `carry_le_half`, `carry_isFinite`: the run laws, from any engine, all
  through `carry_along_run`: what every output cycle leaves as carry, every run keeps;
* `carry_is_bounded_and_exact`: from a fresh engine the carry is always a finite single of at
  most one half, and each output cycle splits the value it rounded exactly;
* `fractional_motion_is_conserved`: from a fresh engine, the emitted motion plus the final
  carry is exactly what the output cycles took in, and the emitted motion is within one half
  of the scaled motion up to the rounding of the carry additions.
-/

namespace PointerAccel

open PointerAccel.Binary

/-- A carry's pending fraction along an axis. -/
def CarryState.along (c : CarryState) : Axis → Float32
  | .x => c.x
  | .y => c.y
  | .wheel => c.wheel

theorem RawSample.along_ne_sentinel {s : RawSample} (h : s.hasSentinel = false) (a : Axis) :
    s.along a ≠ sentinel := by
  simp only [RawSample.hasSentinel, RawSample.fields, List.any_eq_false, List.mem_cons,
    List.not_mem_nil, or_false, beq_iff_eq] at h
  cases a
  · exact h _ (.inl rfl)
  · exact h _ (.inr (.inl rfl))
  · exact h _ (.inr (.inr rfl))

theorem toOutput_guard {r : Float32} (h : (toOutput r).toInt ≠ sentinel) :
    singleOfInt sentinel ≤ r ∧ r < singleOfInt (-sentinel) := by
  by_contra hg
  apply h
  simp only [toOutput]
  rw [if_neg (by simpa using hg)]
  decide

theorem finite_of_toOutput_ne_sentinel {x : Float32} (h : (toOutput (roundAway x)).toInt ≠ sentinel) :
    (∃ neg m e, decodeSingle x = .finite neg m e) ∧
      -2 ^ 31 ≤ singleRat (roundAway x) ∧ singleRat (roundAway x) < 2 ^ 31 := by
  have hguard := toOutput_guard h
  obtain ⟨neg', m', e', hr, hlo, hhi⟩ :=
    finite_of_between (by decide +kernel) (by decide +kernel) hguard.1 hguard.2
  refine ⟨?_, hlo, hhi⟩
  by_contra hnot
  have hnf : ∀ neg m e, decodeSingle x ≠ .finite neg m e := fun n m e h => hnot ⟨n, m, e, h⟩
  rw [roundAway_of_not_finite hnf] at hr
  exact hnf _ _ _ hr

/-- An axis that does not round to the sentinel emits the integer part of its rounding, and
keeps as remainder the exact rest, at most one half and a finite single. -/
theorem toOutput_split (x : Float32) (h : (toOutput (roundAway x)).toInt ≠ sentinel) :
    ((toOutput (roundAway x)).toInt : ℚ) + singleRat (x - roundAway x) = singleRat x ∧
      |singleRat (x - roundAway x)| ≤ 1 / 2 ∧ (x - roundAway x).isFinite = true := by
  have hguard := toOutput_guard h
  obtain ⟨⟨neg, m, e, hx⟩, hlo, hhi⟩ := finite_of_toOutput_ne_sentinel h
  obtain ⟨hsplit, hhalf, hint, hfin⟩ := roundAway_split hx
  have hout : (toOutput (roundAway x)).toInt = (decodeSingle (roundAway x)).truncInt := by
    unfold toOutput
    rw [if_pos (by simp [hguard.1, hguard.2])]
    rw [← hint] at hlo hhi
    exact Int32.toInt_ofInt_of_le (by exact_mod_cast hlo) (by exact_mod_cast hhi)
  rw [hout]
  exact ⟨hsplit, hhalf, hfin⟩

namespace Engine

/-- The gain of a cycle that passed the exactness check: at the merged motion, this cycle's
frame time and the set its reload poll leaves live. -/
def cycleGain (e : Engine) (s : RawSample) : Float32 :=
  gain (merge s e.buffer).1 (merge s e.buffer).2.1 (e.timer.elapsed e.clockNs).1 e.poll.live

/-- The scaled motion of a cycle along an axis: the merged delta times the gain times the live
sensitivity on the pointer axes, the merged delta times the wheel ratio on the wheel. -/
def scaled (e : Engine) (s : RawSample) : Axis → Float32
  | .x => (merge s e.buffer).1 * e.cycleGain s * e.poll.live.sensitivity
  | .y => (merge s e.buffer).2.1 * e.cycleGain s * e.poll.live.sensitivity
  | .wheel => (merge s e.buffer).2.2 * e.poll.live.wheelRatio

/-- The value a cycle rounds along an axis: on the pointer axes the scaled motion with the
carry added, on the wheel the scaled motion alone. -/
def preRound (e : Engine) (s : RawSample) : Axis → Float32
  | .x => e.scaled s .x + e.carry.x
  | .y => e.scaled s .y + e.carry.y
  | .wheel => e.scaled s .wheel

theorem rounding_output_along (e : Engine) (s : RawSample) (a : Axis) :
    (e.rounding s).output.along a = (toOutput (roundAway (e.preRound s a))).toInt := by
  cases a <;> rfl

theorem rounding_remainder_along (e : Engine) (s : RawSample) (a : Axis) :
    (e.rounding s).remainder.along a = e.preRound s a - roundAway (e.preRound s a) := by
  cases a <;> rfl

theorem rounding_split (e : Engine) (s : RawSample) (h : (e.rounding s).isFaulted = false)
    (a : Axis) :
    ((e.rounding s).output.along a : ℚ) + singleRat ((e.rounding s).remainder.along a) =
        singleRat (e.preRound s a) ∧
      |singleRat ((e.rounding s).remainder.along a)| ≤ 1 / 2 ∧
      ((e.rounding s).remainder.along a).isFinite = true := by
  have hne := RawSample.along_ne_sentinel h a
  rw [rounding_output_along] at hne ⊢
  rw [rounding_remainder_along]
  exact toOutput_split _ hne

theorem rounding_preRound_isFinite (e : Engine) (s : RawSample)
    (h : (e.rounding s).isFaulted = false) (a : Axis) : (e.preRound s a).isFinite = true := by
  have hne := RawSample.along_ne_sentinel h a
  rw [rounding_output_along] at hne
  exact (isFinite_iff_decodeSingle _).2 (finite_of_toOutput_ne_sentinel hne).1

/-- What a cycle does to the carry: a cycle that returns an output returns the rounding and
leaves its remainder, and any other cycle fails and leaves the carry as it was. -/
theorem process_carry (e : Engine) (s : RawSample) :
    ((e.process s).1 = .ok (e.rounding s).output ∧
        (e.process s).2.carry = (e.rounding s).remainder ∧ (e.rounding s).isFaulted = false) ∨
      ((e.process s).1.isOk = false ∧ (e.process s).2.carry = e.carry) := by
  cases hu : e.usable
  · rw [process_unusable e s hu]
    exact .inr ⟨rfl, rfl⟩
  · cases hx : s.isFloatExact
    · rw [process_inexact e s hu hx]
      exact .inr ⟨rfl, rfl⟩
    · rw [process_exact e s hu hx]
      cases hf : (e.rounding s).isFaulted
      · exact .inl ⟨rfl, rfl, rfl⟩
      · exact .inr ⟨rfl, rfl⟩

namespace Call

/-- Whether the call returned an output. -/
def isOk (c : Call) : Bool := c.result.isOk

/-- What the call returned; the zero sample for a call that failed. -/
def output (c : Call) : RawSample :=
  match c.result with
  | .ok out => out
  | .error _ => RawSample.zero

/-- The motion the call scaled along an axis. -/
def scaled (c : Call) (a : Axis) : Float32 := c.engine.scaled c.sample a

/-- The value the call rounded along an axis. -/
def preRound (c : Call) (a : Axis) : Float32 := c.engine.preRound c.sample a

theorem carry_step (c : Call) (a : Axis) :
    (c.isOk = true ∧
        (c.output.along a : ℚ) + singleRat (c.after.carry.along a) = singleRat (c.preRound a) ∧
        |singleRat (c.after.carry.along a)| ≤ 1 / 2 ∧ (c.after.carry.along a).isFinite = true) ∨
      (c.isOk = false ∧ c.after.carry = c.engine.carry) := by
  rcases process_carry c.engine c.sample with ⟨hr, hc, hf⟩ | ⟨hr, hc⟩
  · left
    have hout : c.output = (c.engine.rounding c.sample).output := by
      unfold output result
      rw [hr]
    refine ⟨by unfold isOk result; rw [hr]; rfl, ?_⟩
    rw [hout, after, hc]
    exact rounding_split c.engine c.sample hf a
  · exact .inr ⟨hr, hc⟩

theorem carry_of_isOk {c : Call} (h : c.isOk = true) (a : Axis) :
    (c.output.along a : ℚ) + singleRat (c.after.carry.along a) = singleRat (c.preRound a) ∧
      |singleRat (c.after.carry.along a)| ≤ 1 / 2 ∧ (c.after.carry.along a).isFinite = true := by
  rcases carry_step c a with ⟨-, hsplit⟩ | ⟨hnok, -⟩
  · exact hsplit
  · simp [h] at hnok

theorem preRound_isFinite {c : Call} (h : c.isOk = true) (a : Axis) :
    (c.preRound a).isFinite = true := by
  apply rounding_preRound_isFinite
  rcases process_carry c.engine c.sample with ⟨-, -, hf⟩ | ⟨hr, -⟩
  · exact hf
  · exact absurd (show c.isOk = false from hr) (by simp [h])

end Call

/-- Whatever the new carry of every call with an output satisfies along an axis, and the
carry at the start satisfies, the carry satisfies after any run: the failed calls and the
other host operations leave it alone. -/
theorem carry_along_run (P : Float32 → Prop) (e : Engine) (ops : List HostOp) (a : Axis)
    (hok : ∀ c : Call, c.isOk = true → P (c.after.carry.along a)) (h : P (e.carry.along a)) :
    P ((e.run ops).carry.along a) := by
  induction ops using List.reverseRecOn with
  | nil => exact h
  | append_singleton ops op ih =>
    rcases run_snoc_cases e ops op with ⟨s, -, -, hr⟩ | ⟨-, hf⟩
    · rw [hr]
      rcases Call.carry_step ⟨e.run ops, s⟩ a with ⟨hc, -⟩ | ⟨-, hcarry⟩
      · exact hok _ hc
      · change P (Call.after ⟨e.run ops, s⟩ |>.carry.along a)
        rw [hcarry]
        exact ih
    · rw [hf.carry]
      exact ih

/-- Over a run, what the calls with an output emit along an axis, plus the carry left at the
end, is the carry at the start plus what they took in: the value each rounded less the carry
it found. -/
theorem carry_telescopes (e : Engine) (ops : List HostOp) (a : Axis) :
    (((e.calls ops).filter Call.isOk).map fun c => (c.output.along a : ℚ)).sum +
        singleRat ((e.run ops).carry.along a) =
      singleRat (e.carry.along a) + (((e.calls ops).filter Call.isOk).map fun c =>
        singleRat (c.preRound a) - singleRat (c.engine.carry.along a)).sum := by
  induction ops using List.reverseRecOn with
  | nil => simp
  | append_singleton ops op ih =>
    rcases run_snoc_cases e ops op with ⟨s, -, hc, hr⟩ | ⟨hc, hf⟩
    · rw [hc, hr]
      rcases Call.carry_step ⟨e.run ops, s⟩ a with ⟨hok, hsplit, -⟩ | ⟨hnok, hcarry⟩
      · simp only [List.filter_append, List.filter_singleton, hok, cond_true, List.map_append,
          List.map_singleton, List.sum_append, List.sum_singleton]
        change _ + singleRat (Call.after ⟨e.run ops, s⟩ |>.carry.along a) = _
        linarith
      · simp only [List.filter_append, List.filter_singleton, hnok, cond_false, List.append_nil]
        change _ + singleRat (Call.after ⟨e.run ops, s⟩ |>.carry.along a) = _
        rw [hcarry]
        exact ih
    · rw [hc, hf.carry]
      exact ih

theorem carry_le_half (e : Engine) (ops : List HostOp) (a : Axis)
    (h : |singleRat (e.carry.along a)| ≤ 1 / 2) :
    |singleRat ((e.run ops).carry.along a)| ≤ 1 / 2 :=
  carry_along_run (fun x => |singleRat x| ≤ 1 / 2) e ops a
    (fun _ hc => (Call.carry_of_isOk hc a).2.1) h

theorem carry_isFinite (e : Engine) (ops : List HostOp) (a : Axis)
    (h : (e.carry.along a).isFinite = true) : ((e.run ops).carry.along a).isFinite = true :=
  carry_along_run (fun x => x.isFinite = true) e ops a
    (fun _ hc => (Call.carry_of_isOk hc a).2.2) h

theorem singleRat_zero_along (a : Axis) : singleRat (CarryState.zero.along a) = 0 := by
  have h0 : decodeSingle (0.0 : Float32) = .finite false 0 (-149) := by decide +kernel
  cases a <;> simp [CarryState.along, CarryState.zero, singleRat, h0, toRat_finite]

/-- Fractional motion is carried, never lost. Along any axis, over any run from a fresh
engine: what the cycles that returned an output emitted, plus the carry left at the end,
equals exactly what they rounded less the carry each found; the carry stays within one half;
and so the emitted motion differs from the scaled motion by at most one half plus the
rounding error of adding the carry to the scaled motion in single precision. -/
theorem fractional_motion_is_conserved (p : ParamSet) (surface : Surface) (clock : UInt64)
    (usable : Bool) (ops : List HostOp) (a : Axis) :
    let e := Engine.init p surface clock usable
    let oks := (e.calls ops).filter Call.isOk
    let emitted := (oks.map fun c => (c.output.along a : ℚ)).sum
    let carry := singleRat ((e.run ops).carry.along a)
    emitted + carry =
        (oks.map fun c => singleRat (c.preRound a) - singleRat (c.engine.carry.along a)).sum ∧
      |carry| ≤ 1 / 2 ∧
      |emitted - (oks.map fun c => singleRat (c.scaled a)).sum| ≤
        1 / 2 + (oks.map fun c => |singleRat (c.preRound a) -
          (singleRat (c.scaled a) + singleRat (c.engine.carry.along a))|).sum := by
  intro e oks emitted carry
  have h0 : singleRat (e.carry.along a) = 0 := singleRat_zero_along a
  have hlaw := carry_telescopes e ops a
  rw [h0, zero_add] at hlaw
  have hhalf := carry_le_half e ops a (by rw [h0]; norm_num)
  refine ⟨hlaw, hhalf, ?_⟩
  -- what was taken in is the scaled motion plus the error of each carry addition
  have hsplit :
      (oks.map fun c => singleRat (c.preRound a) - singleRat (c.engine.carry.along a)).sum =
      (oks.map fun c => singleRat (c.scaled a)).sum + (oks.map fun c => singleRat (c.preRound a) -
        (singleRat (c.scaled a) + singleRat (c.engine.carry.along a))).sum := by
    rw [← List.sum_map_add]
    congr 1
    apply List.map_congr_left
    intro c _
    ring
  have habs := List.le_sum_of_subadditive abs abs_zero.le abs_add_le (oks.map fun c =>
    singleRat (c.preRound a) - (singleRat (c.scaled a) + singleRat (c.engine.carry.along a)))
  rw [List.map_map] at habs
  calc |emitted - (oks.map fun c => singleRat (c.scaled a)).sum|
      = |(oks.map fun c => singleRat (c.preRound a) -
          (singleRat (c.scaled a) + singleRat (c.engine.carry.along a))).sum - carry| := by
        congr 1
        linarith
    _ ≤ |(oks.map fun c => singleRat (c.preRound a) -
          (singleRat (c.scaled a) + singleRat (c.engine.carry.along a))).sum| + |carry| :=
        abs_sub _ _
    _ ≤ (oks.map fun c => |singleRat (c.preRound a) -
          (singleRat (c.scaled a) + singleRat (c.engine.carry.along a))|).sum + 1 / 2 :=
        add_le_add habs hhalf
    _ = _ := add_comm _ _

theorem zero_along_isFinite (a : Axis) : (CarryState.zero.along a).isFinite = true := by
  have h0 : (0.0 : Float32).isFinite = true := by decide +kernel
  cases a <;> exact h0

/-- The carry invariant. Over any run from a fresh engine, whatever the parameters, reloads,
clock readings and context availability, the carry on every axis is a finite single of at
most one half. Every cycle that returns an output rounded a finite single (the scaled motion
plus the carry on the pointer axes, the scaled wheel motion on the wheel) and split it
exactly: as rationals, the output plus the new carry is that value. -/
theorem carry_is_bounded_and_exact (p : ParamSet) (surface : Surface) (clock : UInt64)
    (usable : Bool) (ops : List HostOp) :
    let e := Engine.init p surface clock usable
    (∀ a : Axis, ((e.run ops).carry.along a).isFinite = true ∧
      |singleRat ((e.run ops).carry.along a)| ≤ 1 / 2) ∧
    ∀ c : Call, c.isOk = true → ∀ a : Axis, (c.preRound a).isFinite = true ∧
      (c.output.along a : ℚ) + singleRat (c.after.carry.along a) = singleRat (c.preRound a) := by
  intro e
  refine ⟨fun a => ⟨?_, ?_⟩, fun c hc a => ⟨Call.preRound_isFinite hc a, (Call.carry_of_isOk hc a).1⟩⟩
  · exact carry_isFinite e ops a (zero_along_isFinite a)
  · have h0 : singleRat (e.carry.along a) = 0 := singleRat_zero_along a
    exact carry_le_half e ops a (by rw [h0]; norm_num)

/-- The first cycle of a fresh engine on `(3, -2, 1)` returns an output and splits the
horizontal axis exactly. -/
theorem fresh_cycle_splits_exactly :
    let c : Call := ⟨Engine.init ParamSet.default Surface.new 0 true, ⟨3, -2, 1⟩⟩
    c.isOk = true ∧ (c.preRound .x).isFinite = true ∧
      (c.output.along .x : ℚ) + singleRat (c.after.carry.along .x) = singleRat (c.preRound .x) := by
  intro c
  have hok : c.isOk = true := by decide +kernel
  exact ⟨hok, (carry_is_bounded_and_exact ParamSet.default Surface.new 0 true []).2 c hok .x⟩

end Engine

end PointerAccel
