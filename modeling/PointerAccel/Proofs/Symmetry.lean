import Mathlib
import PointerAccel.Proofs.Single.Sign
import PointerAccel.Proofs.Unity

/-!
# The engine treats every direction alike

Moving left instead of right, down instead of up, or along one pointer axis instead of the
other changes only the sign or the axis of what comes out. The symmetries of the square that
fix the wheel, negating x, negating y and swapping the two, act on samples, buffers and
carries; one cycle on mirrored inputs gives the mirrored result and leaves the mirrored
engine, and so does every run.

The arithmetic is symmetric where IEEE arithmetic is: negation commutes exactly with
products, with rounding half away from zero and with the conversion to an output delta, and
with sums and differences up to the sign of a zero result, so carries are compared with
`SameValue`. The integer ranges are not symmetric, and the hypotheses exclude their edges:
the delta `-2^31` has no negation in 32 bits, and a buffered sum that saturates at one end of
the 64-bit range would saturate at the other end only after one more count.

* `toOutput_eq_ite`, `toOutput_neg`: the conversion to an output delta reads the rounded
  value, and is odd;
* `merge_symmetric`, `cycleGain_symmetric`, `apply_symmetric`, `rounding_symmetric`: one
  cycle's arithmetic;
* `process_symmetric`: one call, from any engine equal to a mirrored one up to zero signs;
* `run_symmetric`: every run, by induction over the host operations.
-/

namespace PointerAccel

open PointerAccel.Binary

/-- The symmetries of the square that fix the wheel: they move the pointer axes only. -/
inductive Symmetry where
  | negateX
  | negateY
  | swapXY
  deriving DecidableEq

namespace Symmetry

/-- A symmetry on an x value and a y value. -/
def pair {α : Type} [Neg α] : Symmetry → α → α → α × α
  | negateX, x, y => (-x, y)
  | negateY, x, y => (x, -y)
  | swapXY, x, y => (y, x)

/-- A symmetry on a sample's deltas. -/
def sample (T : Symmetry) (s : RawSample) : RawSample :=
  ⟨(T.pair s.dx s.dy).1, (T.pair s.dx s.dy).2, s.dwheel⟩

/-- A symmetry on a buffer's sums. -/
def buffer (T : Symmetry) (b : EventBuffer) : EventBuffer :=
  ⟨(T.pair b.x b.y).1, (T.pair b.x b.y).2, b.wheel⟩

/-- A symmetry on a carry's pending fractions. -/
def carry (T : Symmetry) (c : CarryState) : CarryState :=
  ⟨(T.pair c.x c.y).1, (T.pair c.x c.y).2, c.wheel⟩

/-- A symmetry on a cycle's result: an output is mirrored, an error is kept. -/
def result (T : Symmetry) : Except CycleError RawSample → Except CycleError RawSample
  | .ok out => .ok (T.sample out)
  | .error err => .error err

/-- A symmetry on an engine: the buffer and the carry are mirrored, nothing else moves. -/
def engine (T : Symmetry) (e : Engine) : Engine :=
  { e with buffer := T.buffer e.buffer, carry := T.carry e.carry }

/-- A symmetry on a host operation: a handed-over sample is mirrored. -/
def op (T : Symmetry) : Engine.HostOp → Engine.HostOp
  | .process s => .process (T.sample s)
  | o => o

end Symmetry

/-- The pointer sums of a buffer lie strictly inside the 64-bit range: saturation has not
reached them. The wheel sum is never mirrored and may be anything. -/
def EventBuffer.Unsaturated (b : EventBuffer) : Prop :=
  b.x ≠ Int64.minValue ∧ b.x ≠ Int64.maxValue ∧ b.y ≠ Int64.minValue ∧ b.y ≠ Int64.maxValue

instance (b : EventBuffer) : Decidable b.Unsaturated := inferInstanceAs (Decidable (_ ∧ _))

/-- Two carries with the same pending values, zeros of either sign counting as equal. -/
def CarryState.SameValue (c c' : CarryState) : Prop :=
  Binary.SameValue c.x c'.x ∧ Binary.SameValue c.y c'.y ∧ Binary.SameValue c.wheel c'.wheel

/-- Two engines equal but for carries of the same values. -/
def Engine.SameValue (e e' : Engine) : Prop :=
  ∃ c, e = { e' with carry := c } ∧ c.SameValue e'.carry

theorem CarryState.SameValue.refl (c : CarryState) : c.SameValue c :=
  ⟨.refl _, .refl _, .refl _⟩

theorem Engine.SameValue.refl (e : Engine) : e.SameValue e :=
  ⟨e.carry, rfl, .refl _⟩

/-! ## The edges of the integer ranges -/

section Boundaries

theorem toInt_neg_of_ne_sentinel {n : Int32} (h : n.toInt ≠ sentinel) : (-n).toInt = -n.toInt := by
  have hlo := Int32.le_toInt n
  have hhi := Int32.toInt_lt n
  simp only [sentinel] at h
  rw [Int32.toInt_neg, Int.bmod_eq_of_le] <;> omega

theorem toInt_eq_sentinel_iff (n : Int32) : n.toInt = sentinel ↔ n = Int32.minValue := by
  rw [← Int32.toInt_inj, Int32.toInt_minValue]
  rfl

theorem toInt_neg_eq_sentinel_iff (n : Int32) : (-n).toInt = sentinel ↔ n.toInt = sentinel := by
  rw [toInt_eq_sentinel_iff, toInt_eq_sentinel_iff]
  constructor
  · intro h
    rw [← @Int32.neg_neg n, h]
    decide
  · rintro rfl
    decide

theorem toInt_neg_of_ne_min {n : Int64} (h : n ≠ Int64.minValue) : (-n).toInt = -n.toInt := by
  have hne : n.toInt ≠ -2 ^ 63 := fun h' =>
    h (Int64.toInt_inj.1 (h'.trans Int64.toInt_minValue.symm))
  have hlo := Int64.le_toInt n
  have hhi := Int64.toInt_lt n
  rw [Int64.toInt_neg, Int.bmod_eq_of_le] <;> omega

theorem clampI64_toInt (z : Int) :
    (clampI64 z).toInt = max (-9223372036854775808) (min 9223372036854775807 z) := by
  unfold clampI64
  rw [Int64.toInt_ofInt_of_le] <;> omega

theorem clampI64_neg {z : Int} (hmin : clampI64 z ≠ Int64.minValue)
    (hmax : clampI64 z ≠ Int64.maxValue) : clampI64 (-z) = -clampI64 z := by
  have hz := clampI64_toInt z
  have hlo : (clampI64 z).toInt ≠ -2 ^ 63 := fun h =>
    hmin (Int64.toInt_inj.1 (h.trans Int64.toInt_minValue.symm))
  have hhi : (clampI64 z).toInt ≠ 2 ^ 63 - 1 := fun h =>
    hmax (Int64.toInt_inj.1 (h.trans Int64.toInt_maxValue.symm))
  apply Int64.toInt_inj.1
  rw [clampI64_toInt, toInt_neg_of_ne_min hmin]
  omega

theorem roundTrips_neg (z : Int) : RawSample.roundTrips (-z) = RawSample.roundTrips z := by
  unfold RawSample.roundTrips
  rw [(singleOfInt_neg z).truncInt, decodeSingle_neg, truncInt_neg, Bool.eq_iff_iff, beq_iff_eq,
    beq_iff_eq, neg_inj]

theorem roundTrips_neg_toInt (n : Int32) :
    RawSample.roundTrips (-n).toInt = RawSample.roundTrips n.toInt := by
  by_cases h : n.toInt = sentinel
  · have hn := (toInt_eq_sentinel_iff n).1 h
    subst hn
    rfl
  · rw [toInt_neg_of_ne_sentinel h, roundTrips_neg]

end Boundaries

/-! ## Conversion to an output delta -/

section Output

theorem truncInt_of_two_pow_24_le {x : Float32} (hx : x.isFinite = true)
    (h : 2 ^ 24 ≤ |singleRat x|) : ((decodeSingle x).truncInt : ℚ) = singleRat x := by
  have hc := canon_unpack hx
  rw [singleRat_eq] at h ⊢
  rw [decodeSingle_eq]
  cases hu : x.toModel.unpack with
  | notANumber => rw [hu] at hc; exact hc.elim
  | infinity s => rw [hu] at hc; exact hc.elim
  | zero s =>
    rw [hu] at h
    cases s <;> norm_num [Decoded.ofUnpacked, Decoded.toRat] at h
  | finite s m e hp =>
    rw [hu] at hc h
    have habs : |(Decoded.ofUnpacked (.finite s m e hp)).toRat| = m * 2 ^ e := by
      rw [ofUnpacked_finite_toRat, abs_mul, abs_of_pos (zpow_pos (by norm_num : (0 : ℚ) < 2) e)]
      cases s <;> simp [Float.Model.UnpackedFloat.Sign.apply]
    have he : 0 ≤ e := by
      by_contra hneg
      have h₁ : (2 : ℚ) ^ e ≤ 1 := zpow_le_one_of_nonpos₀ (by norm_num) (by omega)
      have h₂ : (m : ℚ) < 2 ^ 24 := by exact_mod_cast hc.1
      have h₃ : (m : ℚ) * 2 ^ e ≤ m := mul_le_of_le_one_right (Nat.cast_nonneg m) h₁
      linarith
    exact (toRat_eq_truncInt he).symm

theorem truncInt_eq_of_singleRat {x : Float32} {k : Int} (hx : x.isFinite = true)
    (hk : 2 ^ 24 ≤ |k|) (h : singleRat x = k) : (decodeSingle x).truncInt = k := by
  have h' : (2 : ℚ) ^ 24 ≤ |singleRat x| := by
    rw [h]
    exact_mod_cast hk
  exact_mod_cast (truncInt_of_two_pow_24_le hx h').trans h

/-- The conversion to an output delta in terms of the value rounded: its integer part inside
`[-2^31, 2^31)`, the sentinel outside and for NaN and the infinities. -/
theorem toOutput_eq_ite (r : Float32) :
    toOutput r = if r.isFinite = true ∧ -2 ^ 31 ≤ singleRat r ∧ singleRat r < 2 ^ 31 then
      Int32.ofInt (decodeSingle r).truncInt else Int32.ofInt sentinel := by
  have hL := singleRat_finite_two_pow_31 true decodeSingle_sentinel
  have hH := singleRat_finite_two_pow_31 false decodeSingle_neg_sentinel
  simp only [↓reduceIte, Bool.false_eq_true] at hL hH
  unfold toOutput
  by_cases hg : r.isFinite = true ∧ -2 ^ 31 ≤ singleRat r ∧ singleRat r < 2 ^ 31
  · rw [if_pos hg, if_pos]
    obtain ⟨hfin, hlo, hhi⟩ := hg
    simp only [Bool.and_eq_true, decide_eq_true_eq]
    exact ⟨(le_iff_singleRat_le hL.2 hfin).2 (hL.1 ▸ hlo),
      (lt_iff_singleRat_lt hfin hH.2).2 (hH.1 ▸ hhi)⟩
  · rw [if_neg hg, if_neg]
    simp only [Bool.and_eq_true, decide_eq_true_eq]
    rintro ⟨h₁, h₂⟩
    obtain ⟨neg, m, e, hd, hlo, hhi⟩ :=
      finite_of_between decodeSingle_sentinel decodeSingle_neg_sentinel h₁ h₂
    exact hg ⟨(isFinite_iff_decodeSingle r).2 ⟨neg, m, e, hd⟩, hlo, hhi⟩

theorem toOutput_of_isZero {x : Float32} (h : IsZero x) : toOutput x = 0 := by
  have hv := h.singleRat_zero
  rw [toOutput_eq_ite, if_pos ⟨h.isFinite, by rw [hv]; norm_num, by rw [hv]; norm_num⟩,
    h.truncInt]
  rfl

theorem Binary.SameValue.toOutput {x y : Float32} (h : SameValue x y) :
    toOutput x = toOutput y := by
  rcases sameValue_iff.1 h with rfl | ⟨hx, hy⟩
  · rfl
  · rw [toOutput_of_isZero hx, toOutput_of_isZero hy]

/-- The conversion to an output delta is odd. At the two edges the range `[-2^31, 2^31)` is
not symmetric, but `2^31` and `-2^31` both become the sentinel, which is its own negation. -/
theorem toOutput_neg (r : Float32) : toOutput (-r) = -toOutput r := by
  rw [toOutput_eq_ite, toOutput_eq_ite, isFinite_neg, singleRat_neg, decodeSingle_neg,
    truncInt_neg]
  have hmin : -Int32.ofInt sentinel = Int32.ofInt sentinel := by decide
  split_ifs with h₁ h₂ h₂
  · exact Int32.ofInt_neg _
  · have hv : singleRat r = 2 ^ 31 := le_antisymm (by linarith [h₁.2.1])
      (not_lt.1 fun hlt => h₂ ⟨h₁.1, by linarith [h₁.2.2], hlt⟩)
    rw [truncInt_eq_of_singleRat h₁.1 (by norm_num : (2 : Int) ^ 24 ≤ |2 ^ 31|)
      (by rw [hv]; norm_num), hmin]
    rfl
  · have hv : singleRat r = -2 ^ 31 := le_antisymm
      (not_lt.1 fun hlt => h₁ ⟨h₂.1, by linarith [h₂.2.2], by linarith⟩) h₂.2.1
    rw [truncInt_eq_of_singleRat h₂.1 (by norm_num : (2 : Int) ^ 24 ≤ |-2 ^ 31|)
      (by rw [hv]; norm_num)]
    rfl
  · exact hmin.symm

end Output

/-! ## One cycle -/

theorem Engine.rounding_eq_apply (e : Engine) (s : RawSample) :
    e.rounding s = e.carry.apply (Engine.merge s e.buffer).1 (Engine.merge s e.buffer).2.1
      (Engine.merge s e.buffer).2.2 (e.cycleGain s) e.poll.live := rfl

namespace Symmetry

variable (T : Symmetry)

theorem buffer_empty : T.buffer EventBuffer.empty = EventBuffer.empty := by
  cases T <;> rfl

theorem isEmpty_buffer (b : EventBuffer) : (T.buffer b).isEmpty = b.isEmpty := by
  have hneg : ∀ n : Int64, (-n == 0) = (n == 0) := fun n => by
    rw [Bool.eq_iff_iff, beq_iff_eq, beq_iff_eq]
    constructor
    · intro h
      rw [← @Int64.neg_neg n, h]
      decide
    · rintro rfl
      decide
  cases T <;> simp only [buffer, pair, EventBuffer.isEmpty, hneg, Bool.and_comm]

theorem hasSentinel_sample (s : RawSample) : (T.sample s).hasSentinel = s.hasSentinel := by
  have hneg : ∀ n : Int32, ((-n).toInt == sentinel) = (n.toInt == sentinel) := fun n => by
    rw [Bool.eq_iff_iff, beq_iff_eq, beq_iff_eq, toInt_neg_eq_sentinel_iff]
  cases T <;> simp only [sample, pair, RawSample.hasSentinel, RawSample.fields, List.any_cons,
    List.any_nil, Bool.or_false, hneg, Bool.or_left_comm]

theorem isFloatExact_sample (s : RawSample) : (T.sample s).isFloatExact = s.isFloatExact := by
  cases T <;> simp only [sample, pair, RawSample.isFloatExact, RawSample.fields, List.all_cons,
    List.all_nil, Bool.and_true, roundTrips_neg_toInt, Bool.and_left_comm]

theorem clampI64_add_neg {n : Int64} {d : Int32} (hn : n ≠ Int64.minValue)
    (hd : d.toInt ≠ sentinel) (hmin : clampI64 (n.toInt + d.toInt) ≠ Int64.minValue)
    (hmax : clampI64 (n.toInt + d.toInt) ≠ Int64.maxValue) :
    clampI64 ((-n).toInt + (-d).toInt) = -clampI64 (n.toInt + d.toInt) := by
  rw [toInt_neg_of_ne_min hn, toInt_neg_of_ne_sentinel hd, ← Int.neg_add, clampI64_neg hmin hmax]

theorem absorb_symmetric {b : EventBuffer} {s : RawSample} (hs : s.hasSentinel = false)
    (hb : b.Unsaturated) (hb' : (b.absorb s).Unsaturated) :
    (T.buffer b).absorb (T.sample s) = T.buffer (b.absorb s) := by
  have hx := RawSample.along_ne_sentinel hs .x
  have hy := RawSample.along_ne_sentinel hs .y
  obtain ⟨hbx, -, hby, -⟩ := hb
  obtain ⟨h₁, h₂, h₃, h₄⟩ := hb'
  cases T
  · simp only [buffer, sample, pair, EventBuffer.absorb, clampI64_add_neg hbx hx h₁ h₂]
  · simp only [buffer, sample, pair, EventBuffer.absorb, clampI64_add_neg hby hy h₃ h₄]
  · rfl

theorem merged_neg {d : Int32} {n : Int64} (hd : d.toInt ≠ sentinel) (hn : n ≠ Int64.minValue) :
    SameValue (singleOfInt (-d).toInt + singleOfInt (-n).toInt)
      (-(singleOfInt d.toInt + singleOfInt n.toInt)) := by
  rw [toInt_neg_of_ne_sentinel hd, toInt_neg_of_ne_min hn]
  exact ((singleOfInt_neg _).add (singleOfInt_neg _)).trans (neg_add_neg _ _)

/-- A pair of singles holds what a symmetry makes of another pair, zeros of either sign
counting as equal. -/
def Mirrors (x' y' x y : Float32) : Prop :=
  SameValue x' (T.pair x y).1 ∧ SameValue y' (T.pair x y).2

theorem merge_symmetric {s : RawSample} {b : EventBuffer} (hs : s.hasSentinel = false)
    (hb : b.Unsaturated) :
    T.Mirrors (Engine.merge (T.sample s) (T.buffer b)).1
        (Engine.merge (T.sample s) (T.buffer b)).2.1 (Engine.merge s b).1 (Engine.merge s b).2.1 ∧
      (Engine.merge (T.sample s) (T.buffer b)).2.2 = (Engine.merge s b).2.2 := by
  have hx := RawSample.along_ne_sentinel hs .x
  have hy := RawSample.along_ne_sentinel hs .y
  cases T
  · exact ⟨⟨merged_neg hx hb.1, .refl _⟩, rfl⟩
  · exact ⟨⟨.refl _, merged_neg hy hb.2.2.1⟩, rfl⟩
  · exact ⟨⟨.refl _, .refl _⟩, rfl⟩

theorem gain_of_squares {dx dy dx' dy' : Float32} (ms : Float32) (p : ParamSet)
    (h : dx' * dx' + dy' * dy' = dx * dx + dy * dy) : gain dx' dy' ms p = gain dx dy ms p := by
  unfold gain rate speed
  rw [h]

theorem pair_squares (x y : Float32) :
    (T.pair x y).1 * (T.pair x y).1 + (T.pair x y).2 * (T.pair x y).2 = x * x + y * y := by
  cases T
  · exact congrArg (· + y * y) (neg_mul_neg_self x)
  · exact congrArg (x * x + ·) (neg_mul_neg_self y)
  · exact Binary.add_comm _ _

theorem gain_symmetric {dx dy dx' dy' : Float32} (ms : Float32) (p : ParamSet)
    (h : T.Mirrors dx' dy' dx dy) : gain dx' dy' ms p = gain dx dy ms p :=
  gain_of_squares ms p (by rw [h.1.mul_self, h.2.mul_self, pair_squares])

theorem pointer_sameValue {d d' k k' : Float32} (g sens : Float32) (hd : SameValue d' d)
    (hk : SameValue k' k) : SameValue (d' * g * sens + k') (d * g * sens + k) :=
  ((hd.mul (.refl g)).mul (.refl sens)).add hk

theorem pointer_neg {d d' k k' : Float32} (g sens : Float32) (hd : SameValue d' (-d))
    (hk : SameValue k' (-k)) : SameValue (d' * g * sens + k') (-(d * g * sens + k)) := by
  have h := pointer_sameValue g sens hd hk
  rw [neg_mul, neg_mul] at h
  exact h.trans (neg_add_neg _ _)

theorem emit_sameValue {v v' : Float32} (h : SameValue v' v) :
    toOutput (roundAway v') = toOutput (roundAway v) ∧
      SameValue (v' - roundAway v') (v - roundAway v) :=
  ⟨h.roundAway.toOutput, h.sub h.roundAway⟩

theorem emit_neg {v v' : Float32} (h : SameValue v' (-v)) :
    toOutput (roundAway v') = -toOutput (roundAway v) ∧
      SameValue (v' - roundAway v') (-(v - roundAway v)) := by
  have hr := h.roundAway
  rw [roundAway_neg] at hr
  exact ⟨by rw [hr.toOutput, toOutput_neg], (h.sub hr).trans (neg_sub_neg _ _)⟩

/-- Applying a mirrored carry to mirrored motion emits the mirrored output and leaves the
mirrored remainder. -/
theorem apply_symmetric {c c' : CarryState} {dx dy dx' dy' : Float32} (dw g : Float32)
    (p : ParamSet) (hc : c'.SameValue (T.carry c)) (hd : T.Mirrors dx' dy' dx dy) :
    (c'.apply dx' dy' dw g p).output = T.sample (c.apply dx dy dw g p).output ∧
      (c'.apply dx' dy' dw g p).remainder.SameValue (T.carry (c.apply dx dy dw g p).remainder) := by
  obtain ⟨hcx, hcy, -⟩ := hc
  obtain ⟨hx, hy⟩ := hd
  cases T
  · obtain ⟨hox, hrx⟩ := emit_neg (pointer_neg g p.sensitivity hx hcx)
    obtain ⟨hoy, hry⟩ := emit_sameValue (pointer_sameValue g p.sensitivity hy hcy)
    exact ⟨by simp only [CarryState.apply, sample, pair, carry, hox, hoy], hrx, hry, .refl _⟩
  · obtain ⟨hox, hrx⟩ := emit_sameValue (pointer_sameValue g p.sensitivity hx hcx)
    obtain ⟨hoy, hry⟩ := emit_neg (pointer_neg g p.sensitivity hy hcy)
    exact ⟨by simp only [CarryState.apply, sample, pair, carry, hox, hoy], hrx, hry, .refl _⟩
  · obtain ⟨hox, hrx⟩ := emit_sameValue (pointer_sameValue g p.sensitivity hx hcx)
    obtain ⟨hoy, hry⟩ := emit_sameValue (pointer_sameValue g p.sensitivity hy hcy)
    exact ⟨by simp only [CarryState.apply, sample, pair, carry, hox, hoy], hrx, hry, .refl _⟩

theorem cycleGain_symmetric (e : Engine) {s : RawSample} (c : CarryState)
    (hs : s.hasSentinel = false) (hb : e.buffer.Unsaturated) :
    ({ T.engine e with carry := c } : Engine).cycleGain (T.sample s) = e.cycleGain s :=
  T.gain_symmetric _ _ (T.merge_symmetric hs hb).1

theorem rounding_symmetric (e : Engine) {s : RawSample} {c : CarryState}
    (hs : s.hasSentinel = false) (hb : e.buffer.Unsaturated) (hc : c.SameValue (T.carry e.carry)) :
    (({ T.engine e with carry := c } : Engine).rounding (T.sample s)).output =
        T.sample (e.rounding s).output ∧
      (({ T.engine e with carry := c } : Engine).rounding (T.sample s)).remainder.SameValue
        (T.carry (e.rounding s).remainder) := by
  obtain ⟨hd, hw⟩ := T.merge_symmetric hs hb
  -- the wheel is merged alike; said by rewriting, since the kernel cannot see it through `T`
  have hw' : (Engine.merge (T.sample s) ({ T.engine e with carry := c } : Engine).buffer).2.2 =
      (Engine.merge s e.buffer).2.2 := hw
  rw [Engine.rounding_eq_apply, Engine.rounding_eq_apply, T.cycleGain_symmetric e c hs hb, hw']
  exact T.apply_symmetric _ _ _ hc hd

theorem passCounters_symmetric (e : Engine) (c : CarryState) :
    ({ T.engine e with carry := c } : Engine).passCounters = e.passCounters := by
  unfold Engine.passCounters
  rw [show ({ T.engine e with carry := c } : Engine).buffer.isEmpty = e.buffer.isEmpty from
    T.isEmpty_buffer e.buffer]
  rfl

/-- One call: from an engine equal to a mirrored one up to zero signs, a mirrored sample
gives the mirrored result and again such an engine. -/
theorem process_symmetric {e e₁ : Engine} {s : RawSample} (he : e₁.SameValue (T.engine e))
    (hs : s.hasSentinel = false) (hb : e.buffer.Unsaturated)
    (hb' : (e.process s).2.buffer.Unsaturated) :
    (e₁.process (T.sample s)).1 = T.result (e.process s).1 ∧
      (e₁.process (T.sample s)).2.SameValue (T.engine (e.process s).2) := by
  obtain ⟨c, rfl, hc⟩ := he
  cases hu : e.usable
  · rw [Engine.process_unusable e s hu] at hb' ⊢
    rw [Engine.process_unusable { T.engine e with carry := c } (T.sample s) hu]
    refine ⟨rfl, c, ?_, hc⟩
    simp only [engine, T.absorb_symmetric hs hb hb']
  · have hx' := T.isFloatExact_sample s
    cases hx : s.isFloatExact
    · rw [Engine.process_inexact e s hu hx] at hb' ⊢
      rw [Engine.process_inexact { T.engine e with carry := c } (T.sample s) hu (hx'.trans hx)]
      refine ⟨rfl, c, ?_, hc⟩
      simp only [engine, T.absorb_symmetric hs hb hb']
    · obtain ⟨hout, hrem⟩ := T.rounding_symmetric e hs hb hc
      have hf : (({ T.engine e with carry := c } : Engine).rounding (T.sample s)).isFaulted =
          (e.rounding s).isFaulted := by
        rw [Carried.isFaulted, hout, T.hasSentinel_sample]
        rfl
      rw [Engine.process_exact e s hu hx,
        Engine.process_exact { T.engine e with carry := c } (T.sample s) hu (hx'.trans hx), hf]
      by_cases hfault : (e.rounding s).isFaulted = true
      · rw [if_pos hfault, if_pos hfault]
        refine ⟨rfl, c, ?_, hc⟩
        rw [T.passCounters_symmetric]
        simp only [engine, Engine.drain, Engine.poll, T.buffer_empty]
      · rw [if_neg hfault, if_neg hfault]
        refine ⟨by rw [hout]; rfl, _, ?_, hrem⟩
        rw [T.passCounters_symmetric]
        simp only [engine, Engine.drain, Engine.poll, T.buffer_empty]

/-! ## Every run -/

theorem perform_frame_symmetric {e e₁ : Engine} (he : e₁.SameValue (T.engine e))
    {o : Engine.HostOp} (ho : ∀ s, o ≠ .process s) :
    (e₁.perform (T.op o)).2.SameValue (T.engine (e.perform o).2) := by
  obtain ⟨c, rfl, hc⟩ := he
  cases o with
  | process s => exact absurd rfl (ho s)
  | setClock ns => exact ⟨c, rfl, hc⟩
  | setUsable b => exact ⟨c, rfl, hc⟩
  | edit w => exact ⟨c, rfl, hc⟩
  | setHeld b => exact ⟨c, rfl, hc⟩

/-- Every run: from an engine equal to a mirrored one up to zero signs, the mirrored run
returns the mirrored results call by call and ends in such an engine, as long as no sample
holds the sentinel and no call finds or leaves a saturated pointer sum. -/
theorem run_symmetric (ops : List Engine.HostOp) {e e₁ : Engine} (he : e₁.SameValue (T.engine e))
    (hcalls : ∀ c ∈ e.calls ops, c.sample.hasSentinel = false ∧ c.engine.buffer.Unsaturated ∧
      c.after.buffer.Unsaturated) :
    (e₁.calls (ops.map T.op)).map Engine.Call.result =
        (e.calls ops).map (T.result ∘ Engine.Call.result) ∧
      (e₁.run (ops.map T.op)).SameValue (T.engine (e.run ops)) := by
  -- induction over the operations, with both engines free: each step lemma hands the
  -- relation on to the rest of the run
  induction ops generalizing e e₁ with
  | nil => exact ⟨rfl, he⟩
  | cons o ops ih =>
    cases o with
    | process s =>
      rw [Engine.calls_cons_process] at hcalls
      obtain ⟨hs, hb, hb'⟩ : s.hasSentinel = false ∧ e.buffer.Unsaturated ∧
          (e.process s).2.buffer.Unsaturated := hcalls ⟨e, s⟩ List.mem_cons_self
      obtain ⟨hr, he'⟩ := T.process_symmetric he hs hb hb'
      obtain ⟨hcs, hrun⟩ := ih he' fun c hc => hcalls c (List.mem_cons_of_mem _ hc)
      refine ⟨?_, hrun⟩
      rw [List.map_cons, op, Engine.calls_cons_process, Engine.calls_cons_process, List.map_cons,
        List.map_cons, hcs]
      exact congrArg (· :: _) hr
    | setClock ns => exact ih (T.perform_frame_symmetric he (by simp)) hcalls
    | setUsable b => exact ih (T.perform_frame_symmetric he (by simp)) hcalls
    | edit w => exact ih (T.perform_frame_symmetric he (by simp)) hcalls
    | setHeld b => exact ih (T.perform_frame_symmetric he (by simp)) hcalls

end Symmetry

/-- The engine treats every direction alike. Negating x, negating y or swapping the two on
the sample, the buffer and the carry, one cycle returns the mirrored output or the same
error and leaves the mirrored engine, with the same parameters, timer, reload state and
counters and carries of the same values; and so does every run of host operations with its
samples mirrored. The hypotheses keep off the asymmetric edges of the integer ranges: no
sample holds the sentinel, and no call finds or leaves a saturated pointer sum. -/
theorem engine_is_direction_symmetric (T : Symmetry) (e : Engine) :
    (∀ s : RawSample, s.hasSentinel = false → e.buffer.Unsaturated →
      (e.process s).2.buffer.Unsaturated →
      ((T.engine e).process (T.sample s)).1 = T.result (e.process s).1 ∧
        ((T.engine e).process (T.sample s)).2.SameValue (T.engine (e.process s).2)) ∧
    (∀ ops : List Engine.HostOp,
      (∀ c ∈ e.calls ops, c.sample.hasSentinel = false ∧ c.engine.buffer.Unsaturated ∧
        c.after.buffer.Unsaturated) →
      ((T.engine e).calls (ops.map T.op)).map Engine.Call.result =
          (e.calls ops).map (T.result ∘ Engine.Call.result) ∧
        ((T.engine e).run (ops.map T.op)).SameValue (T.engine (e.run ops))) :=
  ⟨fun _ hs hb hb' => T.process_symmetric (.refl _) hs hb hb',
    fun ops h => T.run_symmetric ops (.refl _) h⟩

theorem negated_mixed_run_mirrors :
    let e := Engine.init ParamSet.default Surface.new 0 false
    let ops := [Engine.HostOp.process ⟨3, -4, 7⟩, .setUsable true, .process ⟨-5, 2, 1⟩,
      .setClock 8000000, .process ⟨120, 35, 0⟩]
    (∀ c ∈ e.calls ops, c.sample.hasSentinel = false ∧ c.engine.buffer.Unsaturated ∧
        c.after.buffer.Unsaturated) ∧
      ((Symmetry.negateX.engine e).calls (ops.map Symmetry.negateX.op)).map Engine.Call.result =
          (e.calls ops).map (Symmetry.negateX.result ∘ Engine.Call.result) ∧
        ((Symmetry.negateX.engine e).run (ops.map Symmetry.negateX.op)).SameValue
          (Symmetry.negateX.engine (e.run ops)) := by
  intro e ops
  have h : ∀ c ∈ e.calls ops, c.sample.hasSentinel = false ∧ c.engine.buffer.Unsaturated ∧
      c.after.buffer.Unsaturated := by decide +kernel
  exact ⟨h, (engine_is_direction_symmetric .negateX e).2 ops h⟩

end PointerAccel
