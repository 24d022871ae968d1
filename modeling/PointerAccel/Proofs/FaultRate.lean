import Mathlib
import PointerAccel.Proofs.FrameReading
import PointerAccel.Proofs.Nearest.Monotone
import PointerAccel.Proofs.Reload
import PointerAccel.Engine.Counters

/-!
# The fault rate is a fraction

A snapshot's two totals saturate at `2^64 - 1` each on its own, and the fault rate divides the
faults by the cycles after rounding both to doubles. A saturating sum grows with each of its
parts and rounding to nearest is monotone, so the rounded faults are at most the rounded
cycles, and their quotient rounds to at most one. Whatever the seven counters hold:

* `numericFaults_le_totalCycles`: the saturated faults never exceed the saturated cycles;
* `double_le_iff_unpack_le`: the order of doubles is the model's comparison of their
  unpacked forms;
* `ratio_rounds`: the double quotient of two whole numbers `0 < a ≤ t < 2^64` is a positive
  double of at most one;
* `fault_rate_is_proper_fraction`: the rate is `0.0` with no cycles and otherwise between
  `0.0` and `1.0`.
-/

namespace PointerAccel.Binary

open Float.Model Float.Model.UnpackedFloat BinaryFormat

/-! ## Comparing doubles -/

theorem double_le_iff_unpack_le (a b : Float) :
    a ≤ b ↔ a.toModel.unpack.le b.toModel.unpack = true := by
  change Float.le a b = true ↔ _
  unfold Float.le
  rw [decide_eq_true_iff]
  rfl

theorem unpack_double_zero : (0.0 : Float).toModel.unpack = .zero .positive := rfl

theorem unpack_double_one : (1.0 : Float).toModel.unpack = .finite .positive (2 ^ 52) (-52) (by decide) :=
  rfl

theorem unpack_of_bitsOf64 {r : Float} {m : Nat} {q : Int} (hm : 0 < m) (hc : double.Fits m q)
    (h : bitsOf64 r = double.pack false m q) : r.toModel.unpack = .finite .positive m q hm := by
  obtain ⟨s, hp, hs, hu, -⟩ := unpack_of_fits formatMatch_double r.toModel.toBits.toBitVec hm hc
    (by rw [UInt64.toNat_toBitVec]; exact h)
  obtain rfl : s = .positive := by cases s <;> simp_all [signNeg]
  exact hu

theorem finite_le_one {m : Nat} {q : Int} (hm : 0 < m) (hc : double.Fits m q)
    (h : (m : ℚ) * 2 ^ q ≤ 1) :
    UnpackedFloat.le (.finite .positive m q hm) (.finite .positive (2 ^ 52) (-52) (by decide)) =
      true := by
  have hh : double.hidden = 2 ^ 52 := rfl
  have hmin : double.minExp = -1074 := by decide
  rcases lt_trichotomy q (-52) with hlt | rfl | hgt
  · simp [UnpackedFloat.le, UnpackedFloat.compare, compare_lt_iff_lt.2 hlt]
  · have hm' : m ≤ 2 ^ 52 := by
      rw [show (2 : ℚ) ^ (-52 : Int) = 1 / 2 ^ 52 by norm_num, mul_one_div,
        div_le_one (by positivity)] at h
      exact_mod_cast h
    simp only [UnpackedFloat.le, UnpackedFloat.compare]
    simpa using Nat.isLE_compare.2 hm'
  · exfalso
    have hnorm : 2 ^ 52 ≤ m := by
      rcases hc.norm with hn | hn
      · rwa [hh] at hn
      · rw [hmin] at hn; omega
    have htwo : (2 : ℚ) ≤ m * 2 ^ q :=
      calc (2 : ℚ) = 2 ^ 52 * 2 ^ (-51 : Int) := by norm_num
        _ ≤ m * 2 ^ q := by
          gcongr
          · exact_mod_cast hnorm
          · norm_num
          · omega
    linarith

/-! ## The quotient of two counts -/

/-- The double quotient of two whole numbers `0 < a ≤ t < 2^64` is a positive double of at most
one: both conversions round monotonically, so the exact quotient of the rounded values is in
`(0, 1]`, and rounding it stays there. -/
theorem ratio_rounds {a t : Nat} (ha : 0 < a) (hat : a ≤ t) (ht : t < 2 ^ 64) :
    ∃ m q, bitsOf64 (doubleOfInt a / doubleOfInt t) = double.pack false m q ∧ 0 < m ∧
      double.Fits m q ∧ (m : ℚ) * 2 ^ q ≤ 1 := by
  obtain ⟨m₁, q₁, hA, hm₁, hc₁, hr₁⟩ := doubleOfInt_rounds ha (by omega)
  obtain ⟨m₂, q₂, hT, hm₂, hc₂, hr₂⟩ := doubleOfInt_rounds (by omega) ht
  have hle : (m₁ : ℚ) * 2 ^ q₁ ≤ m₂ * 2 ^ q₂ := hr₁.mono hr₂ (by exact_mod_cast hat)
  have hpos₂ : (0 : ℚ) < m₂ * 2 ^ q₂ := by positivity
  obtain ⟨-, s₁, hp₁, hs₁, hu₁⟩ := doubleOfBits_pack false hm₁ hc₁
  obtain ⟨-, s₂, hp₂, hs₂, hu₂⟩ := doubleOfBits_pack false hm₂ hc₂
  obtain rfl : s₁ = .positive := by cases s₁ <;> simp_all [signNeg]
  obtain rfl : s₂ = .positive := by cases s₂ <;> simp_all [signNeg]
  have hword : bitsOf64 (doubleOfInt a / doubleOfInt t) =
      (UnpackedFloat.pack Format.binary64 (UnpackedFloat.div Format.binary64
        (.finite .positive m₁ q₁ hp₁) (.finite .positive m₂ q₂ hp₂))).toNat := by
    rw [hA, hT, ← hu₁, ← hu₂]
    rfl
  obtain ⟨hd₁, hv₁⟩ := ratOf_spec m₁ q₁
  obtain ⟨hd₂, hv₂⟩ := ratOf_spec m₂ q₂
  have hn₂ := ratOf_fst_pos hm₂ q₂
  have hden : 0 < (ratOf m₁ q₁).2 * (ratOf m₂ q₂).1 := Nat.mul_pos hd₁ hn₂
  have hv : ((ratOf m₁ q₁).1 * (ratOf m₂ q₂).2 : Nat) / ((ratOf m₁ q₁).2 * (ratOf m₂ q₂).1 : Nat) =
      (m₁ : ℚ) * 2 ^ q₁ / (m₂ * 2 ^ q₂) := by
    rw [← hv₁, ← hv₂]
    have : ((ratOf m₁ q₁).2 : ℚ) ≠ 0 := by exact_mod_cast hd₁.ne'
    have : ((ratOf m₂ q₂).2 : ℚ) ≠ 0 := by exact_mod_cast hd₂.ne'
    have : ((ratOf m₂ q₂).1 : ℚ) ≠ 0 := by exact_mod_cast hn₂.ne'
    push_cast
    field_simp
  rw [pack_div formatMatch_double .positive .positive hm₁ hm₂ hden hv] at hword
  have hquot : (m₁ : ℚ) * 2 ^ q₁ / (m₂ * 2 ^ q₂) ≤ 1 := (div_le_one hpos₂).2 hle
  obtain ⟨m, q, hr, hc, hround⟩ := roundRat_fits_of_lt formatMatch_double.wide _
    (Nat.mul_pos (ratOf_fst_pos hm₁ q₁) hd₂) hden (X := 1)
    (by rw [hv]; exact lt_of_le_of_lt hquot (by norm_num)) (by decide)
  rw [hv] at hround
  have hlow : (2 : ℚ) ^ (double.minExp + double.fracBits) ≤ m₁ * 2 ^ q₁ / (m₂ * 2 ^ q₂) := by
    have h₁ : (1 : ℚ) ≤ m₁ * 2 ^ q₁ := hr₁.le_of_nat (by decide) (k := 1)
      (by exact_mod_cast ha) (by decide)
    have h₂ : (m₂ : ℚ) * 2 ^ q₂ ≤ 2 ^ (64 : Int) :=
      hr₂.le_two_zpow (by exact_mod_cast ht) (by decide)
    rw [show double.minExp + double.fracBits = -1022 by decide, le_div_iff₀ hpos₂]
    calc (2 : ℚ) ^ (-1022 : Int) * (m₂ * 2 ^ q₂) ≤ 2 ^ (-1022 : Int) * 2 ^ (64 : Int) := by
          gcongr
      _ ≤ 1 := by
          rw [← zpow_add₀ two_ne_zero]
          exact zpow_le_one_of_nonpos₀ one_le_two (by norm_num)
      _ ≤ m₁ * 2 ^ q₁ := h₁
  refine ⟨m, q, hword.trans hr, hround.mant_pos hlow, hc, ?_⟩
  rcases lt_or_eq_of_le hquot with hlt | heq
  · exact hround.le_two_zpow (X := 0) (by rwa [zpow_zero]) (by decide) |>.trans (by norm_num)
  · rw [heq] at hround
    have := hround.eq_of_nat (by decide) (k := 1) (by norm_num) (by decide)
    rw [this]
    norm_num

theorem unpack_doubleOfInt_zero : (doubleOfInt 0).toModel.unpack = .zero .positive := rfl

theorem unpack_zero_ratio {t : Nat} (ht0 : 0 < t) (ht : t < 2 ^ 64) :
    (doubleOfInt 0 / doubleOfInt t).toModel.unpack = .zero .positive := by
  obtain ⟨m, q, hT, hm, hc, -⟩ := doubleOfInt_rounds ht0 ht
  obtain ⟨-, s, hp, hs, hu⟩ := doubleOfBits_pack false hm hc
  obtain rfl : s = .positive := by cases s <;> simp_all [signNeg]
  have hdiv : (doubleOfInt 0 / doubleOfInt t).toModel.unpack =
      unpack Format.binary64 (UnpackedFloat.pack Format.binary64
        (UnpackedFloat.div Format.binary64 (.zero .positive) (.finite .positive m q hp))) := by
    rw [← unpack_doubleOfInt_zero, hT, ← hu]
    rfl
  rw [hdiv]
  simp only [UnpackedFloat.div]
  rfl

end PointerAccel.Binary

namespace PointerAccel

open PointerAccel.Binary

namespace Counters

/-- The saturated faults never exceed the saturated cycles: a saturating sum is at least each
of its parts until it saturates, and then it is the largest value. -/
theorem numericFaults_le_totalCycles (c : Counters) :
    c.numericFaults.toNat ≤ c.totalCycles.toNat := by
  unfold numericFaults totalCycles
  simp only [satAdd_toNat]
  omega

/-- The fault rate is a proper fraction for every snapshot: the saturated faults are at most
the saturated cycles, the rate is `0.0` when no cycle was counted, and otherwise it lies in
`[0, 1]`. -/
theorem fault_rate_is_proper_fraction (c : Counters) :
    c.numericFaults ≤ c.totalCycles ∧ (c.totalCycles = 0 → c.faultRate = 0.0) ∧
      (c.totalCycles ≠ 0 → 0.0 ≤ c.faultRate ∧ c.faultRate ≤ 1.0) := by
  have hle := numericFaults_le_totalCycles c
  refine ⟨UInt64.le_iff_toNat_le.2 hle, fun h => by simp [faultRate, h], fun h => ?_⟩
  have ht0 : 0 < c.totalCycles.toNat := by
    rw [Nat.pos_iff_ne_zero, Ne, ← UInt64.toNat_zero, UInt64.toNat_inj]
    exact h
  have ht := c.totalCycles.toNat_lt
  simp only [faultRate, h, if_false, double_le_iff_unpack_le, unpack_double_zero,
    unpack_double_one]
  rcases Nat.eq_zero_or_pos c.numericFaults.toNat with h0 | ha
  · rw [h0, Nat.cast_zero, unpack_zero_ratio ht0 ht]
    exact ⟨rfl, rfl⟩
  · obtain ⟨m, q, hr, hm, hc, hone⟩ := ratio_rounds ha hle ht
    rw [unpack_of_bitsOf64 hm hc hr]
    exact ⟨rfl, finite_le_one hm hc hone⟩

/-- A snapshot whose faults alone have saturated both totals reports a rate of at most one. -/
theorem saturated_faults_rate :
    (⟨0, 0, 18446744073709551615, 18446744073709551615, 0, 0, 0⟩ : Counters).totalCycles ≠ 0 ∧
      0.0 ≤ (⟨0, 0, 18446744073709551615, 18446744073709551615, 0, 0, 0⟩ : Counters).faultRate ∧
      (⟨0, 0, 18446744073709551615, 18446744073709551615, 0, 0, 0⟩ : Counters).faultRate ≤ 1.0 :=
  ⟨by decide, (fault_rate_is_proper_fraction _).2.2 (by decide)⟩

end Counters

end PointerAccel
