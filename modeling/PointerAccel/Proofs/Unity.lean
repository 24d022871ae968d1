import Mathlib
import PointerAccel.Proofs.Carry
import PointerAccel.Proofs.FrameTime
import PointerAccel.Proofs.Single.Integer

/-!
# The unity configuration passes motion through

With the linear curve at zero acceleration, no offset, unit sensitivity and the reference
wheel rate, the gain of a cycle that moves the pointer is exactly one, and the gain of one that
does not is a zero. Every step of a cycle is then exact on whole numbers up to `2^24`: the
conversion of the deltas, their sum with the drained buffer, the scaling, the addition of a
zero carry and the final rounding. So each cycle that gets past the exactness check emits its
merged motion unchanged and leaves the carry zero.

The speed cap is the exception. A cap of `2^-149` reached by the speed, divided by a long
frame time, underflows to a zero rate, the gain is then that zero rate, and the motion is lost
(`subnormal_cap_drops_motion`). With the cap off, or at least the smallest normal single, the
rate stays positive:

* `gain_unity`: the gain is one for any motion and a zero for none;
* `Engine.rounding_unity`: a cycle emits its merged motion and leaves a zero remainder;
* `Engine.unity_passes_motion_through`: over any run from a fresh engine, every cycle that
  gets past the exactness check returns its merged motion, the carry stays zero, no
  post-validation fault is counted, and the inputs add up to the outputs plus the buffer.
-/

namespace PointerAccel

open PointerAccel.Binary Float.Model.UnpackedFloat

/-- The smallest positive normal single, `2^-126`. -/
def minNormalSingle : Float32 := Float32.ofBits 0x00800000

theorem singleRat_minNormalSingle :
    singleRat minNormalSingle = 2 ^ (-126 : Int) ∧ minNormalSingle.isFinite = true := by
  have hu : minNormalSingle.toModel.unpack = .finite .positive (2 ^ 23) (-149) (by decide) := rfl
  rw [singleRat_eq, hu, ofUnpacked_finite_toRat, isFinite_eq_unpack, hu]
  refine ⟨?_, rfl⟩
  norm_num [Sign.apply]

/-- The unity configuration: the linear curve with zero acceleration and zero offset, unit
sensitivity, the reference wheel rate, and a speed cap that is off or at least the smallest
normal single. -/
structure Unity (p : ParamSet) : Prop where
  linear : p.mode = .linear
  acceleration : (p.acceleration == 0.0) = true
  sensitivity : p.sensitivity = 1.0
  offset : (p.offset == 0.0) = true
  scrollsPerTick : p.scrollsPerTick = 3.0
  capNonneg : 0.0 ≤ p.speedCap
  capNormal : (p.speedCap == 0.0) = true ∨ minNormalSingle ≤ p.speedCap

theorem isZero_zero : IsZero 0.0 := ⟨_, unpack_zero⟩

/-! ## The gain -/

theorem cap_between {cap raw : Float32} (hraw : raw.isFinite = true) (h₀ : 0.0 ≤ cap)
    (h : cap ≤ raw) : cap.isFinite = true ∧ 0 ≤ singleRat cap ∧ singleRat cap ≤ singleRat raw := by
  have hfin := isFinite_of_le_of_le isZero_zero.isFinite hraw h₀ h
  have h₁ := (le_iff_singleRat_le isZero_zero.isFinite hfin).1 h₀
  rw [isZero_zero.singleRat_zero] at h₁
  exact ⟨hfin, h₁, (le_iff_singleRat_le hfin hraw).1 h⟩

theorem speed_isZero {X Y cap : Float32} (hX : IsZero X) (hY : IsZero Y) (hcap : 0.0 ≤ cap) :
    IsZero (speed X Y cap) := by
  have hraw : IsZero (Float32.sqrt (X * X + Y * Y)) :=
    isZero_sqrt (isZero_add (isZero_mul_self hX) (isZero_mul_self hY))
  unfold speed
  dsimp only
  split
  · rename_i h
    simp only [Bool.and_eq_true, decide_eq_true_eq] at h
    obtain ⟨hfin, h₁, h₂⟩ := cap_between hraw.isFinite hcap h.2
    rw [hraw.singleRat_zero] at h₂
    exact isZero_of_singleRat hfin (le_antisymm h₂ h₁)
  · exact hraw

theorem speed_posIn {X Y cap : Float32} (hsq : PosIn (1 / 2) (2 ^ 51) (X * X + Y * Y))
    (hcap : 0.0 ≤ cap) (hnormal : (cap == 0.0) = true ∨ minNormalSingle ≤ cap) :
    PosIn (2 ^ (-126 : Int)) (2 ^ 27) (speed X Y cap) := by
  have hraw : PosIn (1 / 8) (2 ^ 27) (Float32.sqrt (X * X + Y * Y)) :=
    posIn_sqrt hsq (by norm_num) (by norm_num) (by norm_num)
  unfold speed
  dsimp only
  split
  · rename_i h
    simp only [Bool.and_eq_true, decide_eq_true_eq, bne, Bool.not_eq_true'] at h
    obtain ⟨hne, hle⟩ := h
    obtain ⟨hfin, -, h₂⟩ := cap_between hraw.isFinite hcap hle
    have hmin : minNormalSingle ≤ cap := hnormal.resolve_left (by rw [hne]; decide)
    have h₁ := (le_iff_singleRat_le singleRat_minNormalSingle.2 hfin).1 hmin
    rw [singleRat_minNormalSingle.1] at h₁
    exact posIn_of_singleRat hfin (by positivity) h₁ (h₂.trans hraw.singleRat_mem.2)
  · exact hraw.mono (by norm_num) le_rfl

theorem rate_isZero {X Y ms : Float32} {p : ParamSet} (hp : Unity p) (hms : PosIn 1 100 ms)
    (hX : IsZero X) (hY : IsZero Y) : IsZero (rate X Y ms p) :=
  isZero_sub (isZero_div (speed_isZero hX hY hp.capNonneg) hms) (isZero_of_beq_zero hp.offset)

theorem rate_posIn {X Y ms : Float32} {p : ParamSet} (hp : Unity p) (hms : PosIn 1 100 ms)
    (hsq : PosIn (1 / 2) (2 ^ 51) (X * X + Y * Y)) :
    PosIn (2 ^ (-136 : Int)) (2 ^ 28) (rate X Y ms p) := by
  have hq := posIn_div (speed_posIn hsq hp.capNonneg hp.capNormal) hms one_pos
    (by norm_num) (by norm_num)
  obtain ⟨m, e, hpm, hqu, -⟩ := id hq
  exact (hq.of_unpack_eq (unpack_sub_zero hqu (isZero_of_beq_zero hp.offset))).mono
    (by norm_num) (by norm_num)

theorem gain_isZero {X Y ms : Float32} {p : ParamSet} (hp : Unity p) (hms : PosIn 1 100 ms)
    (hX : IsZero X) (hY : IsZero Y) : IsZero (gain X Y ms p) := by
  have hr := rate_isZero hp hms hX hY
  unfold gain
  dsimp only
  rw [if_pos hr.le_zero]
  exact hr

theorem unpack_gain_one {X Y ms : Float32} {p : ParamSet} (hp : Unity p) (hms : PosIn 1 100 ms)
    (hsq : PosIn (1 / 2) (2 ^ 51) (X * X + Y * Y)) :
    (gain X Y ms p).toModel.unpack = (1.0 : Float32).toModel.unpack := by
  have hr := rate_posIn hp hms hsq
  unfold gain
  dsimp only
  rw [if_neg hr.not_le_zero]
  unfold applyCurve curveWith
  rw [hp.linear]
  exact unpack_isZero_add (isZero_mul_right hr.isFinite (isZero_of_beq_zero hp.acceleration))
    unpack_one

theorem sumSq_posIn {X Y : Float32} {zx zy : Int} (hX : X.isFinite = true)
    (hY : Y.isFinite = true) (hzx : singleRat X = zx) (hzy : singleRat Y = zy)
    (hbx : zx.natAbs ≤ 2 ^ 24) (hby : zy.natAbs ≤ 2 ^ 24) (hnz : ¬ (IsZero X ∧ IsZero Y)) :
    PosIn (1 / 2) (2 ^ 51) (X * X + Y * Y) := by
  rcases int_single_cases hX hzx hbx with hX0 | ⟨s, m, e, hp, hXu, h₁, h₂⟩ <;>
    rcases int_single_cases hY hzy hby with hY0 | ⟨s', m', e', hp', hYu, h₁', h₂'⟩
  · exact absurd ⟨hX0, hY0⟩ hnz
  · exact (posIn_add_zero_left (isZero_mul_self hX0) (posIn_mul_self hYu h₁' h₂')).mono
      le_rfl (by norm_num)
  · exact (posIn_add_zero_right (posIn_mul_self hXu h₁ h₂) (isZero_mul_self hY0)).mono
      le_rfl (by norm_num)
  · exact (posIn_add (posIn_mul_self hXu h₁ h₂) (posIn_mul_self hYu h₁' h₂')
      (by norm_num)).mono (by norm_num) (by norm_num)

/-- Under the unity configuration and a frame time in `[1, 100]`, the gain at whole-number
motion of at most `2^24` per axis is exactly one, or the motion is none and the gain a zero. -/
theorem gain_unity {X Y ms : Float32} {p : ParamSet} (hp : Unity p) (hms : PosIn 1 100 ms)
    {zx zy : Int} (hX : X.isFinite = true) (hY : Y.isFinite = true) (hzx : singleRat X = zx)
    (hzy : singleRat Y = zy) (hbx : zx.natAbs ≤ 2 ^ 24) (hby : zy.natAbs ≤ 2 ^ 24) :
    (gain X Y ms p).toModel.unpack = (1.0 : Float32).toModel.unpack ∨
      (IsZero X ∧ IsZero Y ∧ IsZero (gain X Y ms p)) := by
  by_cases h0 : IsZero X ∧ IsZero Y
  · exact .inr ⟨h0.1, h0.2, gain_isZero hp hms h0.1 h0.2⟩
  · exact .inl (unpack_gain_one hp hms (sumSq_posIn hX hY hzx hzy hbx hby h0))

theorem unpack_wheelRatio {p : ParamSet} (h : p.scrollsPerTick = 3.0) :
    p.wheelRatio.toModel.unpack = (1.0 : Float32).toModel.unpack := by
  have hd : decodeSingle ((3.0 : Float32) / ParamSet.referenceScrollsPerTick) =
      .finite false (2 ^ 23) (-23) := by decide +kernel
  obtain ⟨hp, hu⟩ := unpack_of_decodeSingle_pos (by norm_num) hd
  rw [ParamSet.wheelRatio, h, hu, unpack_one]
  rfl

theorem scale_unity {X g sens : Float32} (hX : X.isFinite = true) (hsens : sens = 1.0)
    (hg : g.toModel.unpack = (1.0 : Float32).toModel.unpack ∨ (IsZero X ∧ IsZero g)) :
    singleRat (X * g * sens) = singleRat X ∧ (X * g * sens).isFinite = true := by
  rcases hg with hg | ⟨hX0, hg0⟩
  · have h₁ : (X * g).toModel.unpack = X.toModel.unpack := unpack_mul_one hX hg
    have hXg : (X * g).isFinite = true := by rw [isFinite_eq_unpack, h₁, ← isFinite_eq_unpack, hX]
    have h₂ : (X * g * sens).toModel.unpack = X.toModel.unpack := by
      rw [unpack_mul_one hXg (by rw [hsens]), h₁]
    rw [singleRat_eq, singleRat_eq, isFinite_eq_unpack, h₂, ← isFinite_eq_unpack]
    exact ⟨rfl, hX⟩
  · have h0 : IsZero (X * g * sens) :=
      isZero_mul_left (isZero_mul_left hX0 hg0.isFinite) (by rw [hsens]; rfl)
    exact ⟨by rw [h0.singleRat_zero, hX0.singleRat_zero], h0.isFinite⟩

/-! ## Output of a rounded whole number -/

theorem decodeSingle_sentinel : decodeSingle (singleOfInt sentinel) = .finite true (2 ^ 23) 8 := by
  decide +kernel

theorem decodeSingle_neg_sentinel :
    decodeSingle (singleOfInt (-sentinel)) = .finite false (2 ^ 23) 8 := by
  decide +kernel

theorem singleRat_finite_two_pow_31 (neg : Bool) {x : Float32}
    (h : decodeSingle x = .finite neg (2 ^ 23) 8) :
    singleRat x = (if neg then -2 ^ 31 else 2 ^ 31) ∧ x.isFinite = true := by
  refine ⟨?_, (isFinite_iff_decodeSingle x).2 ⟨_, _, _, h⟩⟩
  rw [singleRat, h, toRat_finite]
  cases neg <;> norm_num

theorem toOutput_of_int {r : Float32} {k : Int} (hr : r.isFinite = true) (hk : singleRat r = k)
    (ht : (decodeSingle r).truncInt = k) (hlo : -2 ^ 31 ≤ k) (hhi : k < 2 ^ 31) :
    (toOutput r).toInt = k := by
  obtain ⟨hlo', flo⟩ := singleRat_finite_two_pow_31 true decodeSingle_sentinel
  obtain ⟨hhi', fhi⟩ := singleRat_finite_two_pow_31 false decodeSingle_neg_sentinel
  have hle : singleOfInt sentinel ≤ r := by
    rw [le_iff_singleRat_le flo hr, hlo', hk]
    exact_mod_cast hlo
  have hlt : r < singleOfInt (-sentinel) := by
    rw [lt_iff_singleRat_lt hr fhi, hhi', hk]
    exact_mod_cast hhi
  unfold toOutput
  rw [if_pos (by simp [hle, hlt]), ht]
  exact Int32.toInt_ofInt_of_le (by omega) (by omega)

theorem toOutput_roundAway_int {x : Float32} {z : Int} (hx : x.isFinite = true)
    (hz : singleRat x = z) (hb : z.natAbs ≤ 2 ^ 24) :
    (toOutput (roundAway x)).toInt = z ∧ IsZero (x - roundAway x) := by
  obtain ⟨neg, m, e, hd⟩ := (isFinite_iff_decodeSingle x).1 hx
  obtain ⟨hsplit, hhalf, hint, hfin⟩ := roundAway_split hd
  generalize hk : (decodeSingle (roundAway x)).truncInt = k at hsplit hint
  have hrem : singleRat (x - roundAway x) = ((z - k : Int) : ℚ) := by
    push_cast
    linarith
  rw [hrem, abs_le] at hhalf
  have hkz : k = z := by
    have h₁ : ((z - k : Int) : ℚ) < 1 := by linarith
    have h₂ : -1 < ((z - k : Int) : ℚ) := by linarith
    have h₁' : z - k < 1 := by exact_mod_cast h₁
    have h₂' : -1 < z - k := by exact_mod_cast h₂
    omega
  subst hkz
  refine ⟨toOutput_of_int (roundAway_isFinite hx) hint.symm hk (by omega) (by omega), ?_⟩
  exact isZero_of_singleRat hfin (by rw [hrem, sub_self, Int.cast_zero])

theorem RawSample.hasSentinel_eq_false {s : RawSample} (h : ∀ a, s.along a ≠ sentinel) :
    s.hasSentinel = false := by
  have hx := h .x
  have hy := h .y
  have hw := h .wheel
  simp only [RawSample.hasSentinel, RawSample.fields, List.any_cons, List.any_nil,
    Bool.or_false, Bool.or_eq_false_iff, beq_eq_false_iff_ne]
  exact ⟨hx, hy, hw⟩

theorem RawSample.roundTrips_along {s : RawSample} (h : s.isFloatExact = true) (a : Axis) :
    RawSample.roundTrips (s.along a) = true := by
  simp only [RawSample.isFloatExact, RawSample.fields, List.all_cons, List.all_nil,
    Bool.and_true, Bool.and_eq_true] at h
  cases a
  · exact h.1
  · exact h.2.1
  · exact h.2.2

namespace Engine

/-- The merged motion of a sample and a buffer along an axis. -/
def mergeAlong (s : RawSample) (b : EventBuffer) : Axis → Float32
  | .x => (merge s b).1
  | .y => (merge s b).2.1
  | .wheel => (merge s b).2.2

theorem mergeAlong_eq (s : RawSample) (b : EventBuffer) (a : Axis) :
    mergeAlong s b a = singleOfInt (s.along a) + singleOfInt (b.along a) := by
  cases a <;> rfl

theorem mergeAlong_exact {s : RawSample} {b : EventBuffer} (hx : s.isFloatExact = true)
    (a : Axis) (hb : (b.along a).natAbs ≤ 2 ^ 24) (hsum : (s.along a + b.along a).natAbs ≤ 2 ^ 24) :
    singleRat (mergeAlong s b a) = ((s.along a + b.along a : Int) : ℚ) ∧
      (mergeAlong s b a).isFinite = true := by
  rw [mergeAlong_eq]
  obtain ⟨h₁, f₁⟩ := singleRat_singleOfInt (RawSample.roundTrips_along hx a)
  obtain ⟨h₂, f₂⟩ := singleRat_singleOfInt_of_le hb
  exact singleRat_add_int f₁ f₂ h₁ h₂ hsum

/-- What the unity law asks of a cycle: the sample survives single precision, the set its
reload poll leaves live is the unity configuration, the frame time is in `[1, 100]`, the carry
is zero, and on every axis the drained buffer and the merged motion are at most `2^24` in
magnitude. -/
structure UnityCycle (e : Engine) (s : RawSample) : Prop where
  exact : s.isFloatExact = true
  unity : Unity e.poll.live
  frame : PosIn 1 100 (e.timer.elapsed e.clockNs).1
  carry : ∀ a, IsZero (e.carry.along a)
  buffer : ∀ a, (e.buffer.along a).natAbs ≤ 2 ^ 24
  merged : ∀ a, (s.along a + e.buffer.along a).natAbs ≤ 2 ^ 24

theorem scaled_unity {e : Engine} {s : RawSample} (h : UnityCycle e s) (a : Axis) :
    singleRat (e.scaled s a) = ((s.along a + e.buffer.along a : Int) : ℚ) ∧
      (e.scaled s a).isFinite = true := by
  have hm := fun a => mergeAlong_exact h.exact a (h.buffer a) (h.merged a)
  have hg := gain_unity h.unity h.frame (hm .x).2 (hm .y).2 (hm .x).1 (hm .y).1 (h.merged .x)
    (h.merged .y)
  cases a with
  | x =>
    obtain ⟨hv, hf⟩ := scale_unity (hm .x).2 h.unity.sensitivity
      (hg.imp_right fun h0 => ⟨h0.1, h0.2.2⟩)
    exact ⟨hv.trans (hm .x).1, hf⟩
  | y =>
    obtain ⟨hv, hf⟩ := scale_unity (hm .y).2 h.unity.sensitivity
      (hg.imp_right fun h0 => ⟨h0.2.1, h0.2.2⟩)
    exact ⟨hv.trans (hm .y).1, hf⟩
  | wheel =>
    have hu := unpack_mul_one (hm .wheel).2 (unpack_wheelRatio h.unity.scrollsPerTick)
    have hs : e.scaled s .wheel = mergeAlong s e.buffer .wheel * e.poll.live.wheelRatio := rfl
    rw [hs, singleRat_eq, isFinite_eq_unpack, hu, ← singleRat_eq, ← isFinite_eq_unpack]
    exact hm .wheel

theorem preRound_of_carry_isZero {e : Engine} {s : RawSample} {a : Axis}
    (hc : IsZero (e.carry.along a)) (hf : (e.scaled s a).isFinite = true) :
    singleRat (e.preRound s a) = singleRat (e.scaled s a) ∧ (e.preRound s a).isFinite = true := by
  cases a with
  | x => exact add_isZero hf hc
  | y => exact add_isZero hf hc
  | wheel => exact ⟨rfl, hf⟩

theorem preRound_unity {e : Engine} {s : RawSample} (h : UnityCycle e s) (a : Axis) :
    singleRat (e.preRound s a) = ((s.along a + e.buffer.along a : Int) : ℚ) ∧
      (e.preRound s a).isFinite = true := by
  obtain ⟨hv, hf⟩ := scaled_unity h a
  obtain ⟨hv', hf'⟩ := preRound_of_carry_isZero (h.carry a) hf
  exact ⟨hv'.trans hv, hf'⟩

/-- A unity cycle rounds without a fault, emits its merged motion on every axis and leaves a
zero remainder. -/
theorem rounding_unity {e : Engine} {s : RawSample} (h : UnityCycle e s) :
    (e.rounding s).isFaulted = false ∧
      (∀ a, (e.rounding s).output.along a = s.along a + e.buffer.along a) ∧
      ∀ a, IsZero ((e.rounding s).remainder.along a) := by
  have hout := fun a => toOutput_roundAway_int (preRound_unity h a).2 (preRound_unity h a).1
    (h.merged a)
  have halong : ∀ a, (e.rounding s).output.along a = s.along a + e.buffer.along a := fun a => by
    rw [rounding_output_along]
    exact (hout a).1
  refine ⟨RawSample.hasSentinel_eq_false fun a => ?_, halong, fun a => ?_⟩
  · rw [halong a, sentinel]
    have := h.merged a
    omega
  · rw [rounding_remainder_along]
    exact (hout a).2

theorem process_unity {e : Engine} {s : RawSample} (hu : e.usable = true) (h : UnityCycle e s) :
    (e.process s).1 = .ok (e.rounding s).output ∧
      (e.process s).2.carry = (e.rounding s).remainder ∧
      (e.process s).2.counters.postValidationFaults = e.counters.postValidationFaults := by
  have hf := (rounding_unity h).1
  rw [process_exact e s hu h.exact, if_neg (by rw [hf]; decide)]
  exact ⟨rfl, rfl, passCounters_postValidationFaults e⟩

theorem process_of_not_passes {e : Engine} {s : RawSample} (h : (e.usable && s.isFloatExact) = false) :
    (e.process s).1.isOk = false ∧ (e.process s).2.carry = e.carry ∧
      (e.process s).2.counters.postValidationFaults = e.counters.postValidationFaults := by
  cases hu : e.usable
  · rw [process_unusable e s hu]
    exact ⟨rfl, rfl, rfl⟩
  · rw [hu, Bool.true_and] at h
    rw [process_inexact e s hu h]
    exact ⟨rfl, rfl, rfl⟩

/-- What the unity law asks of a call of a run that gets past the exactness check: the set
its reload poll leaves live is the unity configuration, and on every axis the drained buffer
and the merged motion are at most `2^24` in magnitude. -/
def Call.UnityReady (c : Call) : Prop :=
  Unity c.engine.poll.live ∧ ∀ a : Axis, (c.engine.buffer.along a).natAbs ≤ 2 ^ 24 ∧
    (c.sample.along a + c.engine.buffer.along a).natAbs ≤ 2 ^ 24

theorem Call.unityCycle {c : Call} (hp : c.passes = true) (hr : c.UnityReady)
    (hc : ∀ a, IsZero (c.engine.carry.along a)) (ht : PosIn 1 100 c.engine.timer.lastMs) :
    UnityCycle c.engine c.sample where
  exact := (Bool.and_eq_true_iff.1 hp).2
  unity := hr.1
  frame := (FrameTimer.elapsed_frame _ _ ht).1
  carry := hc
  buffer := fun a => (hr.2 a).1
  merged := fun a => (hr.2 a).2

theorem Call.unity_step {c : Call} (hready : c.passes = true → c.UnityReady)
    (hc : ∀ a, IsZero (c.engine.carry.along a)) (ht : PosIn 1 100 c.engine.timer.lastMs) :
    (c.isOk = c.passes ∧
      (c.passes = true → ∀ a, c.output.along a = c.sample.along a + c.engine.buffer.along a)) ∧
    (∀ a, IsZero (c.after.carry.along a)) ∧
    c.after.counters.postValidationFaults = c.engine.counters.postValidationFaults := by
  cases hp : c.passes
  · obtain ⟨hok, hcarry, hcount⟩ := process_of_not_passes hp
    refine ⟨⟨hok, fun h => absurd h (by decide)⟩, fun a => ?_, hcount⟩
    rw [Call.after, hcarry]
    exact hc a
  · have hcyc := Call.unityCycle hp (hready hp) hc ht
    obtain ⟨hres, hcarry, hcount⟩ := process_unity (Bool.and_eq_true_iff.1 hp).1 hcyc
    have hout : c.output = (c.engine.rounding c.sample).output := by
      unfold Call.output Call.result
      rw [hres]
    refine ⟨⟨by unfold Call.isOk Call.result; rw [hres]; rfl, fun _ a => ?_⟩, fun a => ?_, hcount⟩
    · rw [hout]
      exact (rounding_unity hcyc).2.1 a
    · rw [Call.after, hcarry]
      exact (rounding_unity hcyc).2.2 a

theorem unity_carry_along_run (e : Engine) (ops : List HostOp) (ht : PosIn 1 100 e.timer.lastMs)
    (hc : ∀ a, IsZero (e.carry.along a))
    (hready : ∀ c ∈ e.calls ops, c.passes = true → c.UnityReady) :
    (∀ a, IsZero ((e.run ops).carry.along a)) ∧
      (e.run ops).counters.postValidationFaults = e.counters.postValidationFaults ∧
      ∀ c ∈ e.calls ops, ∀ a, IsZero (c.engine.carry.along a) := by
  induction ops using List.reverseRecOn with
  | nil => exact ⟨hc, rfl, by simp⟩
  | append_singleton ops op ih =>
    rcases run_snoc_cases e ops op with ⟨s, -, hcalls, hr⟩ | ⟨hcalls, hf⟩
    · rw [hcalls] at hready
      obtain ⟨ih₁, ih₂, ih₃⟩ := ih fun c hm => hready c (List.mem_append_left _ hm)
      -- the new call finds the zero carry the run left, and one step keeps it
      obtain ⟨-, hstep, hcount⟩ := Call.unity_step (c := ⟨e.run ops, s⟩)
        (hready _ (List.mem_append_right _ (List.mem_singleton_self _))) ih₁
        (timer_along_run e ops ht).1
      rw [hcalls, hr]
      refine ⟨hstep, hcount.trans ih₂, fun c hm => ?_⟩
      rcases List.mem_append.1 hm with hm | hm
      · exact ih₃ c hm
      · rw [List.mem_singleton.1 hm]
        exact ih₁
    · rw [hcalls] at hready ⊢
      obtain ⟨ih₁, ih₂, ih₃⟩ := ih hready
      rw [hf.carry, hf.counters]
      exact ⟨ih₁, ih₂, ih₃⟩

theorem init_carry_isZero (p : ParamSet) (surface : Surface) (clock : UInt64) (usable : Bool)
    (a : Axis) : IsZero ((Engine.init p surface clock usable).carry.along a) := by
  cases a <;> exact isZero_zero

/-- The unity configuration is a lossless pass-through. Over any run from a fresh engine in
which every call that gets past the exactness check finds the unity configuration live after
its reload poll (a speed cap, if any, at least the smallest normal single), and a drained
buffer and a merged motion of at most `2^24` on every axis: exactly those calls return an
output, each output is the merged motion on all three axes, no post-validation fault is
counted, the carry stays zero, and when no buffered sum saturates, the inputs on each axis add
up to the final buffer plus the outputs. -/
theorem unity_passes_motion_through (p : ParamSet) (surface : Surface) (clock : UInt64)
    (usable : Bool) (ops : List HostOp)
    (hready : ∀ c ∈ (Engine.init p surface clock usable).calls ops, c.passes = true →
      c.UnityReady) :
    let e := Engine.init p surface clock usable
    (∀ c ∈ e.calls ops, c.isOk = c.passes ∧
      (c.passes = true → ∀ a, c.output.along a = c.sample.along a + c.engine.buffer.along a)) ∧
    (e.run ops).counters.postValidationFaults = 0 ∧
    (∀ a, IsZero ((e.run ops).carry.along a)) ∧
    ∀ a, (∀ c ∈ e.calls ops, c.passes = false →
        InI64 (c.engine.buffer.along a + c.sample.along a)) →
      ((e.calls ops).map fun c => c.sample.along a).sum =
        (e.run ops).buffer.along a +
          (((e.calls ops).filter Call.isOk).map fun c => c.output.along a).sum := by
  intro e
  have ht : PosIn 1 100 e.timer.lastMs := by
    rw [init_timer, FrameTimer.new_lastMs]
    exact posIn_minFrameMs
  obtain ⟨hcarry, hcount, hcalls⟩ :=
    unity_carry_along_run e ops ht (init_carry_isZero p surface clock usable) hready
  have hcall : ∀ c ∈ e.calls ops, c.isOk = c.passes ∧
      (c.passes = true → ∀ a, c.output.along a = c.sample.along a + c.engine.buffer.along a) :=
    fun c hm => (Call.unity_step (hready c hm) (hcalls c hm) ((timer_along_run e ops ht).2 c hm)).1
  refine ⟨hcall, hcount, hcarry, fun a hsat => ?_⟩
  have hlaw := inputs_conserved e ops a hsat
  rw [show e.buffer.along a = 0 from EventBuffer.empty_along a, zero_add] at hlaw
  rw [hlaw]
  congr 2
  rw [List.filter_congr fun c hm => (hcall c hm).1]
  apply List.map_congr_left
  intro c hm
  exact ((hcall c (List.mem_of_mem_filter hm)).2 (List.of_mem_filter hm) a).symm

/-- A move held back while the numeric context is unusable comes out whole, merged into the
next cycle, under the default set with acceleration off. -/
theorem buffered_move_passes_through :
    let p : ParamSet := { ParamSet.default with acceleration := 0.0 }
    let e := Engine.init p (Surface.ofParams p) 0 false
    let ops := [HostOp.process ⟨5, 0, -1⟩, .setUsable true, .setClock 3000000, .process ⟨-2, 7, 1⟩]
    (∀ c ∈ e.calls ops, c.passes = true → c.UnityReady) ∧
      ∀ c ∈ e.calls ops, c.isOk = c.passes ∧
        (c.passes = true → ∀ a, c.output.along a = c.sample.along a + c.engine.buffer.along a) := by
  intro p e ops
  have hready : ∀ c ∈ e.calls ops, c.passes = true → c.UnityReady := by
    intro c hc hp
    have hcalls : e.calls ops = [⟨e, ⟨5, 0, -1⟩⟩,
        ⟨(((e.process ⟨5, 0, -1⟩).2.perform (.setUsable true)).2.perform (.setClock 3000000)).2,
          ⟨-2, 7, 1⟩⟩] := rfl
    rw [hcalls, List.mem_pair] at hc
    rcases hc with rfl | rfl
    · exact absurd hp (by decide)
    · refine ⟨⟨by decide +kernel, by decide +kernel, by decide +kernel, by decide +kernel,
        by decide +kernel, by decide +kernel, by decide +kernel⟩, fun a => ?_⟩
      cases a <;> decide +kernel
  exact ⟨hready, (unity_passes_motion_through p _ 0 false ops hready).1⟩

/-- A subnormal speed cap breaks the law. With the cap at `2^-149` and every other field of
the unity configuration, two cycles of one count each get past the exactness check and both
reach the cap. After a frame of one millisecond the cap is the rate and the count comes out;
after one of one hundred the quotient of the cap by the frame time is a zero rate, the gain is
that zero, and the count is lost. -/
theorem subnormal_cap_drops_motion :
    let p : ParamSet := { ParamSet.default with speedCap := 1e-45, acceleration := 0.0 }
    let e := Engine.init p (Surface.ofParams p) 0 true
    let ops := [HostOp.process ⟨1, 0, 0⟩, .setClock 100000000, .process ⟨1, 0, 0⟩]
    (∀ c ∈ e.calls ops, c.passes = true ∧ c.engine.buffer = EventBuffer.empty ∧
      let q := c.engine.poll.live
      q.mode = .linear ∧ (q.acceleration == 0.0) = true ∧ q.sensitivity = 1.0 ∧
        (q.offset == 0.0) = true ∧ q.scrollsPerTick = 3.0 ∧ (0.0 : Float32) ≤ q.speedCap ∧
        (q.speedCap == 0.0) = false ∧ ¬ minNormalSingle ≤ q.speedCap) ∧
      (e.calls ops).map Call.result = [.ok ⟨1, 0, 0⟩, .ok ⟨0, 0, 0⟩] := by
  decide +kernel

end Engine

end PointerAccel
