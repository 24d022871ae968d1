import Mathlib
import PointerAccel.Proofs.Single.Rounding

/-!
# Rounding bounds for singles

The model rounds by truncating the significand at the target exponent and stepping up by at
most one unit. So a rounded value lies between its truncation and one unit above it, and a
value of at least the smallest subnormal rounds to a finite single within a factor of two.

* `roundWithAccuracy_within`: the rounding of any significand that carries its own accuracy;
* `mul_within`, `add_within`, `div_within`, `sqrt_within`: products, sums of positives,
  quotients and square roots of positives, away from overflow and underflow, are finite and
  within a small factor of the exact value;
* `unpack_add`, `unpack_mul`, `unpack_div`, `unpack_sqrt`: a `Float32` operation unpacks to
  the model operation on its unpacked operands, packed and unpacked again.
-/

namespace PointerAccel.Binary

open Float.Model Float.Model.UnpackedFloat

/-! ## The rounding step -/

theorem shiftRight_mantissa (em : ExtendedMantissa) (k : Nat) :
    (em >>> k).mantissa = em.mantissa / 2 ^ k := by
  induction k with
  | zero => simp [HShiftRight.hShiftRight, Nat.repeat]
  | succ k ih =>
    change (em >>> k).mantissa / 2 = _
    rw [ih, Nat.div_div_eq_div_mul, Nat.pow_succ]

theorem roundedMantissa_bounds (em : ExtendedMantissa) :
    em.mantissa ≤ em.roundedMantissa ∧ em.roundedMantissa ≤ em.mantissa + 1 := by
  obtain ⟨m, r, s⟩ := em
  cases r <;> cases s <;>
    simp only [ExtendedMantissa.roundedMantissa, ExtendedMantissa.accuracy,
      Accuracy.roundToNearestEven] <;> omega

theorem targetExponent_eq_ulpExp (m : Nat) (e : Int) :
    Format.binary32.targetExponent (totalExponent m e) = ulpExp m e := by
  simp only [Format.targetExponent, totalExponent, Format.mantissaBits, Format.minExponent, ulpExp]
  norm_num
  omega

theorem shiftToTargetExponent_eq (m : Nat) (e : Int) (acc : Accuracy) :
    (shiftToTargetExponent Format.binary32 m e acc).1.mantissa =
        m / 2 ^ (ulpExp m e - e).toNat ∧
      (shiftToTargetExponent Format.binary32 m e acc).2 = e + (ulpExp m e - e).toNat := by
  constructor
  · simp only [shiftToTargetExponent, shiftToExponent, targetExponent_eq_ulpExp,
      shiftRight_mantissa]
    cases acc with
    | exact => rfl
    | inexact o => cases o <;> rfl
  · simp only [shiftToTargetExponent, shiftToExponent, targetExponent_eq_ulpExp]

theorem truncate_lt (m : Nat) (e : Int) : m / 2 ^ (ulpExp m e - e).toNat < 2 ^ 24 := by
  apply (Nat.div_lt_iff_lt_mul (Nat.two_pow_pos _)).mpr
  rw [← Nat.pow_add]
  calc m < 2 ^ (m.log2 + 1) := Nat.lt_log2_self
    _ ≤ 2 ^ (24 + (ulpExp m e - e).toNat) := Nat.pow_le_pow_right (by norm_num) (by
      unfold ulpExp
      omega)

theorem shiftToTargetExponent_small {r : Nat} {t : Int} (hr : r < 2 ^ 24) (ht : -149 ≤ t) :
    shiftToTargetExponent Format.binary32 r t .exact = (⟨r, false, false⟩, t) := by
  have hk : (Format.binary32.targetExponent (totalExponent r t) - t).toNat = 0 := by
    rw [targetExponent_eq_ulpExp]
    unfold ulpExp
    rcases Nat.eq_zero_or_pos r with rfl | hr0
    · simp
      omega
    · have := (Nat.log2_lt (Nat.ne_of_gt hr0)).2 hr
      omega
  rw [shiftToTargetExponent_exact _ _ (by rw [hk]; exact Nat.one_dvd _), hk]
  simp

theorem shiftToTargetExponent_carry {t : Int} (ht : -149 ≤ t) :
    shiftToTargetExponent Format.binary32 (2 ^ 24) t .exact = (⟨2 ^ 23, false, false⟩, t + 1) := by
  have hk : (Format.binary32.targetExponent (totalExponent (2 ^ 24) t) - t).toNat = 1 := by
    rw [targetExponent_eq_ulpExp]
    unfold ulpExp
    rw [Nat.log2_two_pow]
    omega
  rw [shiftToTargetExponent_exact _ _ (by rw [hk]; exact Dvd.intro_left _ rfl), hk]
  rfl

theorem roundWithAccuracy_eq (s : Sign) (m : Nat) (e : Int) (acc : Accuracy) :
    roundWithAccuracy Format.binary32 s m e acc =
      if h : (shiftToTargetExponent Format.binary32 m e acc).1.roundedMantissa = 0 then .zero s
      else if (shiftToTargetExponent Format.binary32 m e acc).1.roundedMantissa < 2 ^ 24 then
        .finite s (shiftToTargetExponent Format.binary32 m e acc).1.roundedMantissa
          (shiftToTargetExponent Format.binary32 m e acc).2 (Nat.pos_of_ne_zero h)
      else .finite s (2 ^ 23) ((shiftToTargetExponent Format.binary32 m e acc).2 + 1)
        (by decide) := by
  obtain ⟨hmant, hexp⟩ := shiftToTargetExponent_eq m e acc
  have hb := roundedMantissa_bounds (shiftToTargetExponent Format.binary32 m e acc).1
  have htr := truncate_lt m e
  have ht : -149 ≤ (shiftToTargetExponent Format.binary32 m e acc).2 := by
    rw [hexp]
    unfold ulpExp
    omega
  generalize hfirst : shiftToTargetExponent Format.binary32 m e acc = first at *
  obtain ⟨em, t⟩ := first
  dsimp only at hmant hb ht ⊢
  rw [roundWithAccuracy, hfirst]
  dsimp only
  by_cases hz : em.roundedMantissa = 0
  · rw [dif_pos hz, hz, shiftToTargetExponent_small (by norm_num) ht]
    rfl
  rw [dif_neg hz]
  by_cases hsmall : em.roundedMantissa < 2 ^ 24
  · rw [if_pos hsmall, shiftToTargetExponent_small hsmall ht]
    simp only [hz, ↓reduceDIte]
  · have hcarry : em.roundedMantissa = 2 ^ 24 := by omega
    rw [if_neg hsmall]
    simp only [hcarry, shiftToTargetExponent_carry ht]
    rfl

/-! ## Within a factor of two -/

theorem le_log2_add_of_le {m : Nat} {e n : Int} (h : (2 : ℚ) ^ n ≤ m * 2 ^ e) :
    n ≤ (m.log2 : Int) + e := by
  have hm : (m : ℚ) < 2 ^ ((m.log2 : Int) + 1) := by
    rw [zpow_add_one₀ two_ne_zero, zpow_natCast]
    exact_mod_cast (Nat.pow_succ 2 m.log2) ▸ @Nat.lt_log2_self m
  have hlt : (2 : ℚ) ^ n < 2 ^ ((m.log2 : Int) + 1 + e) := by
    rw [zpow_add₀ two_ne_zero]
    calc (2 : ℚ) ^ n ≤ m * 2 ^ e := h
      _ < 2 ^ ((m.log2 : Int) + 1) * 2 ^ e := by gcongr
  have := (zpow_lt_zpow_iff_right₀ (by norm_num : (1 : ℚ) < 2)).mp hlt
  omega

theorem log2_add_le_of_le {m : Nat} {e n : Int} (hm : 0 < m) (h : (m : ℚ) * 2 ^ e ≤ 2 ^ n) :
    (m.log2 : Int) + e ≤ n := by
  have hm' : (2 : ℚ) ^ (m.log2 : Int) ≤ m := by
    rw [zpow_natCast]
    exact_mod_cast Nat.log2_self_le (Nat.ne_of_gt hm)
  have hle : (2 : ℚ) ^ ((m.log2 : Int) + e) ≤ 2 ^ n := by
    rw [zpow_add₀ two_ne_zero]
    calc (2 : ℚ) ^ (m.log2 : Int) * 2 ^ e ≤ m * 2 ^ e := by gcongr
      _ ≤ 2 ^ n := h
  exact (zpow_le_zpow_iff_right₀ (by norm_num : (1 : ℚ) < 2)).mp hle

theorem truncate_bounds (m k : Nat) (e : Int) :
    ((m / 2 ^ k : Nat) : ℚ) * 2 ^ (e + k) ≤ m * 2 ^ e ∧
      (m : ℚ) * 2 ^ e < ((m / 2 ^ k : Nat) + 1) * 2 ^ (e + k) := by
  have h1 : ((m / 2 ^ k : Nat) : ℚ) * 2 ^ k ≤ m := by exact_mod_cast Nat.div_mul_le_self m (2 ^ k)
  have h2 : (m : ℚ) < ((m / 2 ^ k : Nat) + 1) * 2 ^ k := by
    have := Nat.lt_div_mul_add (a := m) (Nat.two_pow_pos k)
    push_cast [add_mul, one_mul]
    exact_mod_cast this
  have h2e : (2 : ℚ) ^ (e + k) = 2 ^ k * 2 ^ e := by
    rw [zpow_add₀ two_ne_zero, zpow_natCast, mul_comm]
  rw [h2e, ← mul_assoc, ← mul_assoc]
  exact ⟨by gcongr, by gcongr⟩

theorem truncate_shape {m : Nat} {e : Int} (hm : 0 < m) (hlog : -149 ≤ (m.log2 : Int) + e)
    (hc : 23 ≤ m.log2 ∨ e ≤ -149) :
    1 ≤ m / 2 ^ (ulpExp m e - e).toNat ∧
      (2 ^ 23 ≤ m / 2 ^ (ulpExp m e - e).toNat ∨ e + (ulpExp m e - e).toNat = -149) := by
  constructor
  · apply (Nat.le_div_iff_mul_le (Nat.two_pow_pos _)).2
    rw [one_mul]
    calc 2 ^ (ulpExp m e - e).toNat ≤ 2 ^ m.log2 :=
          Nat.pow_le_pow_right (by norm_num) (by unfold ulpExp; omega)
      _ ≤ m := Nat.log2_self_le (Nat.ne_of_gt hm)
  · by_cases hsub : e + (ulpExp m e - e).toNat = -149
    · exact .inr hsub
    · left
      have hk : m.log2 = 23 + (ulpExp m e - e).toNat := by unfold ulpExp at hsub ⊢; omega
      apply (Nat.le_div_iff_mul_le (Nat.two_pow_pos _)).2
      rw [← Nat.pow_add, ← hk]
      exact Nat.log2_self_le (Nat.ne_of_gt hm)

/-- A rounding of a significand with 24 bits or at the subnormal exponent, whose value lies
between the smallest subnormal and `2^100`, is a canonical finite single within a factor of
two of that value. -/
theorem roundWithAccuracy_within (s : Sign) {m : Nat} {e : Int} (acc : Accuracy)
    (hc : 23 ≤ m.log2 ∨ e ≤ -149) (hlo : (2 : ℚ) ^ (-149 : Int) ≤ m * 2 ^ e)
    (hhi : (m : ℚ) * 2 ^ e ≤ 2 ^ (100 : Int)) :
    ∃ m' e' hp, roundWithAccuracy Format.binary32 s m e acc = .finite s m' e' hp ∧
      Canonical m' e' ∧ (m : ℚ) * 2 ^ e < 2 * (m' * 2 ^ e') ∧
      (m' : ℚ) * 2 ^ e' ≤ 2 * (m * 2 ^ e) := by
  have hm : 0 < m := by
    rcases Nat.eq_zero_or_pos m with rfl | hm
    · rw [Nat.cast_zero, zero_mul] at hlo
      exact absurd hlo (not_le.mpr (by positivity))
    · exact hm
  have hlog := le_log2_add_of_le hlo
  have hlog' := log2_add_le_of_le hm hhi
  obtain ⟨hmant, hexp⟩ := shiftToTargetExponent_eq m e acc
  have hb := roundedMantissa_bounds (shiftToTargetExponent Format.binary32 m e acc).1
  rw [hmant] at hb
  have hflt := truncate_lt m e
  have htv := truncate_bounds m (ulpExp m e - e).toNat e
  obtain ⟨hf1, hnorm⟩ := truncate_shape hm hlog hc
  rw [← hexp] at htv hnorm
  rw [roundWithAccuracy_eq]
  generalize (shiftToTargetExponent Format.binary32 m e acc).1.roundedMantissa = r at *
  generalize (shiftToTargetExponent Format.binary32 m e acc).2 = t at *
  generalize m / 2 ^ (ulpExp m e - e).toNat = f at *
  have ht : -149 ≤ t ∧ t ≤ 78 := by rw [hexp]; unfold ulpExp; omega
  have hr0 : r ≠ 0 := by omega
  have hq : (f : ℚ) * 2 ^ t ≤ r * 2 ^ t ∧ (r : ℚ) * 2 ^ t ≤ (f + 1) * 2 ^ t := by
    have hlo' : (f : ℚ) ≤ r := by exact_mod_cast hb.1
    have hhi' : (r : ℚ) ≤ f + 1 := by exact_mod_cast hb.2
    exact ⟨by gcongr, by gcongr⟩
  have hf1' : (1 : ℚ) ≤ f := by exact_mod_cast hf1
  have hunit : (0 : ℚ) < 2 ^ t := by positivity
  have hlow : (m : ℚ) * 2 ^ e < 2 * (r * 2 ^ t) := by nlinarith
  have hup : (r : ℚ) * 2 ^ t ≤ 2 * (m * 2 ^ e) := by nlinarith
  rw [dif_neg hr0]
  by_cases hsmall : r < 2 ^ 24
  · rw [if_pos hsmall]
    refine ⟨r, t, _, rfl, ⟨hsmall, ht.1, by omega, ?_⟩, hlow, hup⟩
    rcases hnorm with h | h
    · exact .inl (le_trans h hb.1)
    · exact .inr h
  · have hr : r = 2 ^ 24 := by omega
    have hv : ((2 ^ 23 : Nat) : ℚ) * 2 ^ (t + 1) = r * 2 ^ t := by
      rw [hr, zpow_add_one₀ two_ne_zero]
      push_cast
      ring
    rw [if_neg hsmall]
    refine ⟨2 ^ 23, t + 1, _, rfl, ⟨by norm_num, by omega, by omega, .inl le_rfl⟩, ?_, ?_⟩
    · rw [hv]
      exact hlow
    · rw [hv]
      exact hup

/-! ## The operations -/

theorem log2_mul_ge {m₁ m₂ : Nat} (h₁ : 0 < m₁) (h₂ : 0 < m₂) (h : 2 ^ 23 ≤ m₁ * m₂) :
    23 ≤ (m₁ * m₂).log2 :=
  (Nat.le_log2 (Nat.ne_of_gt (Nat.mul_pos h₁ h₂))).2 h

theorem round_within (s : Sign) {M : Nat} {e : Int} (hlo : (2 : ℚ) ^ (-149 : Int) ≤ M * 2 ^ e)
    (hhi : (M : ℚ) * 2 ^ e ≤ 2 ^ (100 : Int)) :
    ∃ m' e' hp, UnpackedFloat.round Format.binary32 s M e = .finite s m' e' hp ∧
      Canonical m' e' ∧ (M : ℚ) * 2 ^ e < 2 * (m' * 2 ^ e') ∧
      (m' : ℚ) * 2 ^ e' ≤ 2 * (M * 2 ^ e) := by
  have hM : 0 < M := by
    rcases Nat.eq_zero_or_pos M with rfl | hM
    · rw [Nat.cast_zero, zero_mul] at hlo
      exact absurd hlo (not_le.mpr (by positivity))
    · exact hM
  unfold UnpackedFloat.round
  simp only [decreaseExponent, Nat.shiftLeft_eq, targetExponent_eq_ulpExp]
  have hv : ((M * 2 ^ (e - ulpExp M e).toNat : Nat) : ℚ) *
      2 ^ (e - ((e - ulpExp M e).toNat : Int)) = M * 2 ^ e := by
    rw [cast_mul_two_pow_zpow, sub_add_cancel]
  have hc : 23 ≤ (M * 2 ^ (e - ulpExp M e).toNat).log2 ∨
      e - ((e - ulpExp M e).toNat : Int) ≤ -149 := by
    rw [log2_mul_two_pow hM]
    unfold ulpExp
    omega
  rw [← hv] at hlo hhi ⊢
  exact roundWithAccuracy_within s .exact hc hlo hhi

theorem mul_finite (s₁ s₂ : Sign) (m₁ m₂ : Nat) (e₁ e₂ : Int) (h₁ : 0 < m₁) (h₂ : 0 < m₂) :
    UnpackedFloat.mul Format.binary32 (.finite s₁ m₁ e₁ h₁) (.finite s₂ m₂ e₂ h₂) =
      roundWithAccuracy Format.binary32 (s₁ * s₂) (m₁ * m₂) (e₁ + e₂) .exact := rfl

theorem mul_within (s₁ s₂ : Sign) {m₁ m₂ : Nat} {e₁ e₂ : Int} (h₁ : 0 < m₁) (h₂ : 0 < m₂)
    (hc₁ : Canonical m₁ e₁) (hc₂ : Canonical m₂ e₂)
    (hlo : (2 : ℚ) ^ (-149 : Int) ≤ (m₁ * m₂ : Nat) * 2 ^ (e₁ + e₂))
    (hhi : ((m₁ * m₂ : Nat) : ℚ) * 2 ^ (e₁ + e₂) ≤ 2 ^ (100 : Int)) :
    ∃ m e hp, UnpackedFloat.mul Format.binary32 (.finite s₁ m₁ e₁ h₁) (.finite s₂ m₂ e₂ h₂) =
        .finite (s₁ * s₂) m e hp ∧ Canonical m e ∧
      ((m₁ * m₂ : Nat) : ℚ) * 2 ^ (e₁ + e₂) < 2 * (m * 2 ^ e) ∧
      (m : ℚ) * 2 ^ e ≤ 2 * ((m₁ * m₂ : Nat) * 2 ^ (e₁ + e₂)) := by
  have hc : 23 ≤ (m₁ * m₂).log2 ∨ e₁ + e₂ ≤ -149 := by
    obtain ⟨-, he₁, he₁', hn₁⟩ := hc₁
    obtain ⟨-, he₂, he₂', hn₂⟩ := hc₂
    rcases hn₁ with hn₁ | hn₁
    · exact .inl (log2_mul_ge h₁ h₂ (le_trans hn₁ (Nat.le_mul_of_pos_right _ h₂)))
    · rcases hn₂ with hn₂ | hn₂
      · exact .inl (log2_mul_ge h₁ h₂ (le_trans hn₂ (Nat.le_mul_of_pos_left _ h₁)))
      · exact .inr (by omega)
  rw [mul_finite]
  exact roundWithAccuracy_within _ .exact hc hlo hhi

theorem add_finite (s₁ s₂ : Sign) (m₁ m₂ : Nat) (e₁ e₂ : Int) (h₁ : 0 < m₁) (h₂ : 0 < m₂) :
    UnpackedFloat.add Format.binary32 (.finite s₁ m₁ e₁ h₁) (.finite s₂ m₂ e₂ h₂) =
      UnpackedFloat.normalize Format.binary32
        (s₁.apply ((m₁ * 2 ^ (e₁ - min e₁ e₂).toNat : Nat) : Int) +
          s₂.apply ((m₂ * 2 ^ (e₂ - min e₁ e₂).toNat : Nat) : Int)) (min e₁ e₂) .positive := by
  simp only [UnpackedFloat.add, decreaseExponent, Nat.shiftLeft_eq]

theorem add_within {m₁ m₂ : Nat} {e₁ e₂ : Int} (h₁ : 0 < m₁) (h₂ : 0 < m₂)
    (hc₁ : Canonical m₁ e₁)
    (hhi : (m₁ : ℚ) * 2 ^ e₁ + m₂ * 2 ^ e₂ ≤ 2 ^ (100 : Int)) :
    ∃ m e hp, UnpackedFloat.add Format.binary32 (.finite .positive m₁ e₁ h₁)
        (.finite .positive m₂ e₂ h₂) = .finite .positive m e hp ∧ Canonical m e ∧
      (m₁ : ℚ) * 2 ^ e₁ + m₂ * 2 ^ e₂ < 2 * (m * 2 ^ e) ∧
      (m : ℚ) * 2 ^ e ≤ 2 * ((m₁ : ℚ) * 2 ^ e₁ + m₂ * 2 ^ e₂) := by
  rw [add_finite]
  generalize hM₁ : m₁ * 2 ^ (e₁ - min e₁ e₂).toNat = M₁
  generalize hM₂ : m₂ * 2 ^ (e₂ - min e₁ e₂).toNat = M₂
  have hv : ((M₁ + M₂ : Nat) : ℚ) * 2 ^ min e₁ e₂ = (m₁ : ℚ) * 2 ^ e₁ + m₂ * 2 ^ e₂ := by
    rw [← hM₁, ← hM₂, Nat.cast_add, add_mul, cast_mul_two_pow_zpow, cast_mul_two_pow_zpow,
      show min e₁ e₂ + ((e₁ - min e₁ e₂).toNat : Int) = e₁ by omega,
      show min e₁ e₂ + ((e₂ - min e₁ e₂).toNat : Int) = e₂ by omega]
  have hpos : 0 < M₁ + M₂ := by
    rw [← hM₁]
    exact Nat.add_pos_left (Nat.mul_pos h₁ (Nat.two_pow_pos _)) _
  have hlo : (2 : ℚ) ^ (-149 : Int) ≤ (M₁ + M₂ : Nat) * 2 ^ min e₁ e₂ := by
    rw [hv]
    have h1 : (2 : ℚ) ^ (-149 : Int) ≤ (m₁ : ℚ) * 2 ^ e₁ := by
      calc (2 : ℚ) ^ (-149 : Int) ≤ 2 ^ e₁ := zpow_le_zpow_right₀ (by norm_num) hc₁.2.1
        _ ≤ (m₁ : ℚ) * 2 ^ e₁ := le_mul_of_one_le_left (by positivity) (by exact_mod_cast h₁)
    have h2 : (0 : ℚ) ≤ m₂ * 2 ^ e₂ := by positivity
    linarith
  have hnorm : UnpackedFloat.normalize Format.binary32
      (Sign.positive.apply (M₁ : Int) + Sign.positive.apply (M₂ : Int)) (min e₁ e₂) .positive =
      UnpackedFloat.round Format.binary32 .positive (M₁ + M₂) (min e₁ e₂) := by
    unfold UnpackedFloat.normalize
    rw [show Sign.positive.apply (M₁ : Int) + Sign.positive.apply (M₂ : Int) = ((M₁ + M₂ : Nat) : Int)
      from rfl, Int.compare_eq_gt.mpr (by omega)]
    rfl
  rw [hnorm, ← hv]
  exact round_within .positive hlo (by rw [hv]; exact hhi)

theorem targetExponent_binary32 (T : Int) :
    Format.binary32.targetExponent T = max (T - 24) (-149) := by
  simp only [Format.targetExponent, Format.mantissaBits, Format.minExponent]
  norm_num

theorem divCore_bounds {m₁ m₂ : Nat} (e₁ e₂ : Int) (h₁ : 0 < m₁) (h₂ : 0 < m₂) :
    ((divCore Format.binary32 m₁ e₁ m₂ e₂).2.1 ≤ -149 ∨
        2 ^ 23 ≤ (divCore Format.binary32 m₁ e₁ m₂ e₂).1) ∧
      ((divCore Format.binary32 m₁ e₁ m₂ e₂).1 : ℚ) * 2 ^ (divCore Format.binary32 m₁ e₁ m₂ e₂).2.1 *
          (m₂ * 2 ^ e₂) ≤ m₁ * 2 ^ e₁ ∧
      (m₁ : ℚ) * 2 ^ e₁ < ((divCore Format.binary32 m₁ e₁ m₂ e₂).1 + 1) *
          2 ^ (divCore Format.binary32 m₁ e₁ m₂ e₂).2.1 * (m₂ * 2 ^ e₂) := by
  simp only [divCore, Nat.shiftLeft_eq, targetExponent_binary32, totalExponent]
  generalize ht : min (e₁ - e₂) (max ((m₁.log2 : Int) + 1 + e₁ - ((m₂.log2 : Int) + 1 + e₂) - 24)
    (-149)) = t
  have hk : ((e₁ - e₂ - t).toNat : Int) = e₁ - e₂ - t := by omega
  generalize (e₁ - e₂ - t).toNat = k at hk ⊢
  have hv : (m₁ : ℚ) * 2 ^ e₁ = ((m₁ * 2 ^ k : Nat) : ℚ) * 2 ^ (t + e₂) := by
    rw [cast_mul_two_pow_zpow, show t + e₂ + k = e₁ by omega]
  have hq := Nat.div_mul_le_self (m₁ * 2 ^ k) m₂
  have hq' := Nat.lt_div_mul_add (a := m₁ * 2 ^ k) h₂
  have hunit : (2 : ℚ) ^ (t + e₂) = 2 ^ t * 2 ^ e₂ := zpow_add₀ two_ne_zero _ _
  refine ⟨?_, ?_, ?_⟩
  · by_cases hsub : t ≤ -149
    · exact .inl hsub
    · right
      apply (Nat.le_div_iff_mul_le h₂).2
      have hlog : m₂.log2 + 24 ≤ m₁.log2 + k := by omega
      calc 2 ^ 23 * m₂ ≤ 2 ^ 23 * 2 ^ (m₂.log2 + 1) :=
            Nat.mul_le_mul_left _ (Nat.le_of_lt Nat.lt_log2_self)
        _ = 2 ^ (m₂.log2 + 24) := by rw [← Nat.pow_add]; ring_nf
        _ ≤ 2 ^ (m₁.log2 + k) := Nat.pow_le_pow_right (by norm_num) hlog
        _ = 2 ^ m₁.log2 * 2 ^ k := Nat.pow_add _ _ _
        _ ≤ m₁ * 2 ^ k := Nat.mul_le_mul_right _ (Nat.log2_self_le (Nat.ne_of_gt h₁))
  · rw [hv, hunit]
    have : (((m₁ * 2 ^ k) / m₂ : Nat) : ℚ) * m₂ ≤ ((m₁ * 2 ^ k : Nat) : ℚ) := by exact_mod_cast hq
    calc (((m₁ * 2 ^ k) / m₂ : Nat) : ℚ) * 2 ^ t * (m₂ * 2 ^ e₂)
        = (((m₁ * 2 ^ k) / m₂ : Nat) : ℚ) * m₂ * (2 ^ t * 2 ^ e₂) := by ring
      _ ≤ _ := by gcongr
  · rw [hv, hunit]
    have : ((m₁ * 2 ^ k : Nat) : ℚ) < ((((m₁ * 2 ^ k) / m₂ : Nat) : ℚ) + 1) * m₂ := by
      rw [add_mul, one_mul]
      exact_mod_cast hq'
    calc ((m₁ * 2 ^ k : Nat) : ℚ) * (2 ^ t * 2 ^ e₂)
        < ((((m₁ * 2 ^ k) / m₂ : Nat) : ℚ) + 1) * m₂ * (2 ^ t * 2 ^ e₂) := by gcongr
      _ = _ := by ring

theorem div_finite (s₁ s₂ : Sign) (m₁ m₂ : Nat) (e₁ e₂ : Int) (h₁ : 0 < m₁) (h₂ : 0 < m₂) :
    UnpackedFloat.div Format.binary32 (.finite s₁ m₁ e₁ h₁) (.finite s₂ m₂ e₂ h₂) =
      roundWithAccuracy Format.binary32 (s₁ / s₂) (divCore Format.binary32 m₁ e₁ m₂ e₂).1
        (divCore Format.binary32 m₁ e₁ m₂ e₂).2.1 (divCore Format.binary32 m₁ e₁ m₂ e₂).2.2 := rfl

/-- A quotient of two finite singles whose value lies between `2^-148` and `2^100` rounds to
a finite single within a factor of four of it. -/
theorem div_within (s₁ s₂ : Sign) {m₁ m₂ : Nat} {e₁ e₂ : Int} (h₁ : 0 < m₁) (h₂ : 0 < m₂)
    (hlo : (2 : ℚ) ^ (-148 : Int) ≤ m₁ * 2 ^ e₁ / (m₂ * 2 ^ e₂))
    (hhi : (m₁ : ℚ) * 2 ^ e₁ / (m₂ * 2 ^ e₂) ≤ 2 ^ (100 : Int)) :
    ∃ m e hp, UnpackedFloat.div Format.binary32 (.finite s₁ m₁ e₁ h₁) (.finite s₂ m₂ e₂ h₂) =
        .finite (s₁ / s₂) m e hp ∧ Canonical m e ∧
      (m₁ : ℚ) * 2 ^ e₁ / (m₂ * 2 ^ e₂) < 4 * (m * 2 ^ e) ∧
      (m : ℚ) * 2 ^ e ≤ 2 * (m₁ * 2 ^ e₁ / (m₂ * 2 ^ e₂)) := by
  obtain ⟨hc, hq, hq'⟩ := divCore_bounds e₁ e₂ h₁ h₂
  rw [div_finite]
  generalize (divCore Format.binary32 m₁ e₁ m₂ e₂).2.2 = acc
  generalize (divCore Format.binary32 m₁ e₁ m₂ e₂).1 = q at *
  generalize (divCore Format.binary32 m₁ e₁ m₂ e₂).2.1 = t at *
  generalize hv : (m₁ : ℚ) * 2 ^ e₁ / (m₂ * 2 ^ e₂) = v at *
  have hy : (0 : ℚ) < m₂ * 2 ^ e₂ := by positivity
  have hqv : (q : ℚ) * 2 ^ t ≤ v := by rw [← hv, le_div_iff₀ hy]; exact hq
  have hqv' : v < (q + 1) * 2 ^ t := by rw [← hv, div_lt_iff₀ hy]; exact hq'
  have hunit : (0 : ℚ) < 2 ^ t := by positivity
  have hq1 : 1 ≤ q := by
    rcases Nat.eq_zero_or_pos q with rfl | hq1
    · have ht : t ≤ -149 := by omega
      have h2 : (2 : ℚ) ^ t ≤ 2 ^ (-149 : Int) := zpow_le_zpow_right₀ (by norm_num) ht
      have h3 : (2 : ℚ) ^ (-149 : Int) < 2 ^ (-148 : Int) := zpow_lt_zpow_right₀ (by norm_num) (by norm_num)
      push_cast at hqv'
      linarith
    · exact hq1
  have hq1' : (1 : ℚ) ≤ q := by exact_mod_cast hq1
  have hmin : (2 : ℚ) ^ (-149 : Int) ≤ q * 2 ^ t := by
    have h2 : (2 : ℚ) ^ (-148 : Int) = 2 * 2 ^ (-149 : Int) := by
      rw [show (-148 : Int) = -149 + 1 by norm_num, zpow_add_one₀ two_ne_zero, mul_comm]
    nlinarith
  have hbits : 23 ≤ q.log2 ∨ t ≤ -149 := by
    rcases hc with hc | hc
    · exact .inr hc
    · exact .inl ((Nat.le_log2 (by omega)).2 hc)
  obtain ⟨m, e, hp, hr, hcan, hlow, hup⟩ :=
    roundWithAccuracy_within (s₁ / s₂) acc hbits hmin (le_trans hqv hhi)
  refine ⟨m, e, hp, hr, hcan, ?_, ?_⟩
  · nlinarith
  · nlinarith

theorem targetExponent_sqrt (m : Nat) (e : Int) :
    Format.binary32.targetExponent ((totalExponent m e + 1).ediv 2) =
      max (((m.log2 : Int) + e + 2) / 2 - 24) (-149) := by
  rw [targetExponent_binary32, totalExponent]
  congr 2
  show ((m.log2 : Int) + 1 + e + 1) / 2 = _
  congr 1
  omega

theorem sqrtCore_bounds {m : Nat} {e : Int} (h : 0 < m) (he : -149 ≤ e) :
    (-149 ≤ (sqrtCore Format.binary32 m e).2.1) ∧
      ((sqrtCore Format.binary32 m e).2.1 ≤ -149 ∨ 2 ^ 23 ≤ (sqrtCore Format.binary32 m e).1) ∧
      1 ≤ (sqrtCore Format.binary32 m e).1 ∧
      (((sqrtCore Format.binary32 m e).1 : ℚ) * 2 ^ (sqrtCore Format.binary32 m e).2.1) ^ 2 ≤
        m * 2 ^ e ∧
      (m : ℚ) * 2 ^ e <
        (((sqrtCore Format.binary32 m e).1 + 1) * 2 ^ (sqrtCore Format.binary32 m e).2.1) ^ 2 := by
  simp only [sqrtCore, Nat.shiftLeft_eq, targetExponent_sqrt]
  have hediv : e.ediv 2 = e / 2 := rfl
  rw [hediv]
  generalize ht : min (e / 2) (max (((m.log2 : Int) + e + 2) / 2 - 24) (-149)) = t
  have hk : ((e - 2 * t).toNat : Int) = e - 2 * t := by omega
  generalize (e - 2 * t).toNat = k at hk ⊢
  have hM : 0 < m * 2 ^ k := Nat.mul_pos h (Nat.two_pow_pos k)
  have hv : (m : ℚ) * 2 ^ e = ((m * 2 ^ k : Nat) : ℚ) * (2 ^ t) ^ 2 := by
    rw [← zpow_natCast, ← zpow_mul, cast_mul_two_pow_zpow, show t * (2 : Nat) + k = e by push_cast; omega]
  have hs := Nat.sqrt_le' (m * 2 ^ k)
  have hs' := Nat.lt_succ_sqrt' (m * 2 ^ k)
  refine ⟨by omega, ?_, Nat.le_sqrt'.2 (by omega), ?_, ?_⟩
  · by_cases hsub : t ≤ -149
    · exact .inl hsub
    · right
      apply Nat.le_sqrt'.2
      have hlog : 46 ≤ m.log2 + k := by omega
      calc 2 ^ 23 * 2 ^ 23 = 2 ^ 46 := by norm_num
        _ ≤ 2 ^ (m.log2 + k) := Nat.pow_le_pow_right (by norm_num) hlog
        _ = 2 ^ m.log2 * 2 ^ k := Nat.pow_add _ _ _
        _ ≤ m * 2 ^ k := Nat.mul_le_mul_right _ (Nat.log2_self_le (Nat.ne_of_gt h))
  · rw [hv, mul_pow]
    have : ((Nat.sqrt (m * 2 ^ k) : Nat) : ℚ) ^ 2 ≤ ((m * 2 ^ k : Nat) : ℚ) := by exact_mod_cast hs
    gcongr
  · rw [hv, mul_pow]
    have : ((m * 2 ^ k : Nat) : ℚ) < ((Nat.sqrt (m * 2 ^ k) : Nat) + 1 : ℚ) ^ 2 := by exact_mod_cast hs'
    gcongr

theorem sqrt_finite (m : Nat) (e : Int) (h : 0 < m) :
    UnpackedFloat.sqrt Format.binary32 (.finite .positive m e h) =
      roundWithAccuracy Format.binary32 .positive (sqrtCore Format.binary32 m e).1
        (sqrtCore Format.binary32 m e).2.1 (sqrtCore Format.binary32 m e).2.2 := rfl

theorem canonical_value_lt {m : Nat} {e : Int} (hc : Canonical m e) :
    (m : ℚ) * 2 ^ e < 2 ^ (128 : Int) := by
  have hm : (m : ℚ) < 2 ^ (24 : Int) := by exact_mod_cast hc.1
  calc (m : ℚ) * 2 ^ e < 2 ^ (24 : Int) * 2 ^ (104 : Int) := by
        have := zpow_le_zpow_right₀ (by norm_num : (1 : ℚ) ≤ 2) hc.2.2.1
        have h0 : (0 : ℚ) < 2 ^ e := by positivity
        nlinarith
    _ = 2 ^ (128 : Int) := by rw [← zpow_add₀ two_ne_zero]; norm_num

/-- The square root of a positive finite single is a finite single whose square is within a
factor of sixteen of the operand. -/
theorem sqrt_within {m : Nat} {e : Int} (h : 0 < m) (hc : Canonical m e) :
    ∃ m' e' hp, UnpackedFloat.sqrt Format.binary32 (.finite .positive m e h) =
        .finite .positive m' e' hp ∧ Canonical m' e' ∧
      (m : ℚ) * 2 ^ e < 16 * ((m' : ℚ) * 2 ^ e') ^ 2 ∧
      ((m' : ℚ) * 2 ^ e') ^ 2 ≤ 4 * (m * 2 ^ e) := by
  obtain ⟨ht, hbits, hr1, hsq, hsq'⟩ := sqrtCore_bounds h hc.2.1
  have hx := canonical_value_lt hc
  rw [sqrt_finite]
  generalize (sqrtCore Format.binary32 m e).2.2 = acc
  generalize (sqrtCore Format.binary32 m e).1 = r at *
  generalize (sqrtCore Format.binary32 m e).2.1 = t at *
  have hr1' : (1 : ℚ) ≤ r := by exact_mod_cast hr1
  have hunit : (0 : ℚ) < 2 ^ t := by positivity
  have hmin : (2 : ℚ) ^ (-149 : Int) ≤ r * 2 ^ t :=
    calc (2 : ℚ) ^ (-149 : Int) ≤ 1 * 2 ^ t := by rw [one_mul]; exact zpow_le_zpow_right₀ (by norm_num) ht
      _ ≤ r * 2 ^ t := by gcongr
  have hmax : (r : ℚ) * 2 ^ t ≤ 2 ^ (100 : Int) := by
    have h64 : (r : ℚ) * 2 ^ t < 2 ^ (64 : Int) := by
      apply lt_of_pow_lt_pow_left₀ 2 (by positivity)
      calc ((r : ℚ) * 2 ^ t) ^ 2 ≤ m * 2 ^ e := hsq
        _ < 2 ^ (128 : Int) := hx
        _ = (2 ^ (64 : Int)) ^ 2 := by rw [← zpow_natCast, ← zpow_mul]; norm_num
    exact le_trans h64.le (zpow_le_zpow_right₀ (by norm_num) (by norm_num))
  have hbits' : 23 ≤ r.log2 ∨ t ≤ -149 := by
    rcases hbits with hb | hb
    · exact .inr hb
    · exact .inl ((Nat.le_log2 (by omega)).2 hb)
  obtain ⟨m', e', hp, hres, hcan, hlow, hup⟩ :=
    roundWithAccuracy_within .positive acc hbits' hmin hmax
  refine ⟨m', e', hp, hres, hcan, ?_, ?_⟩
  · have h2 : ((r : ℚ) + 1) * 2 ^ t ≤ 2 * (r * 2 ^ t) := by nlinarith
    calc (m : ℚ) * 2 ^ e < (((r : ℚ) + 1) * 2 ^ t) ^ 2 := hsq'
      _ ≤ (2 * (r * 2 ^ t)) ^ 2 := by gcongr
      _ < (2 * (2 * (m' * 2 ^ e'))) ^ 2 := by gcongr
      _ = 16 * ((m' : ℚ) * 2 ^ e') ^ 2 := by ring
  · calc ((m' : ℚ) * 2 ^ e') ^ 2 ≤ (2 * (r * 2 ^ t)) ^ 2 := by gcongr
      _ = 4 * ((r : ℚ) * 2 ^ t) ^ 2 := by ring
      _ ≤ 4 * (m * 2 ^ e) := by gcongr

/-! ## Single operations through the model -/

theorem unpack_add (x y : Float32) :
    (x + y).toModel.unpack = unpack Format.binary32 (pack Format.binary32
      (UnpackedFloat.add Format.binary32 x.toModel.unpack y.toModel.unpack)) :=
  rfl

theorem unpack_mul (x y : Float32) :
    (x * y).toModel.unpack = unpack Format.binary32 (pack Format.binary32
      (UnpackedFloat.mul Format.binary32 x.toModel.unpack y.toModel.unpack)) :=
  rfl

theorem unpack_div (x y : Float32) :
    (x / y).toModel.unpack = unpack Format.binary32 (pack Format.binary32
      (UnpackedFloat.div Format.binary32 x.toModel.unpack y.toModel.unpack)) :=
  rfl

theorem unpack_sqrt (x : Float32) :
    (Float32.sqrt x).toModel.unpack = unpack Format.binary32 (pack Format.binary32
      (UnpackedFloat.sqrt Format.binary32 x.toModel.unpack)) :=
  rfl

end PointerAccel.Binary
