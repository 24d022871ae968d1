import Mathlib
import PointerAccel.Proofs.Single.Bits

/-!
# Exact subtraction of singles

The float model subtracts two finite values by shifting both significands to the lower
exponent, subtracting them as integers, and rounding the result to 24 bits. When the
difference is itself a single, nothing is lost. This module proves that, with values read
as rationals:

* `Decoded.toRat`, `singleRat`: the value of a decoded single, NaN and the infinities taken
  as zero;
* `round_exact`: rounding `N·2^e` with `N < 2^24` returns it, normalised to its last bit
  `ulpExp N e`;
* `singleRat_sub_exact`: `x - y` is exact, and finite, when the difference is `z·2^e` with
  `|z| < 2^24` and `e` in range at or above the lower exponent;
* `singleRat_sub_zero`, `singleRat_sub_self`: subtracting a zero, and a value from itself;
* `isFinite_iff_decodeSingle`: `Float32.isFinite` is reading as `±m·2^e`.
-/

namespace PointerAccel.Binary

open Float.Model Float.Model.UnpackedFloat

/-- The value of a decoded single as a rational; NaN and the infinities count as zero. -/
def Decoded.toRat : Decoded → ℚ
  | .finite negative m e => (if negative then -(m : ℚ) else m) * 2 ^ e
  | _ => 0

@[simp] theorem ofUnpacked_finite_toRat (s : Sign) (m : Nat) (e : Int) (hp : 0 < m) :
    (Decoded.ofUnpacked (.finite s m e hp)).toRat = (s.apply m : ℚ) * 2 ^ e := by
  cases s <;> simp [Decoded.ofUnpacked, Decoded.toRat, signNeg, Sign.apply]

@[simp] theorem ofUnpacked_zero_toRat (s : Sign) : (Decoded.ofUnpacked (.zero s)).toRat = 0 := by
  simp [Decoded.ofUnpacked, Decoded.toRat]

theorem shiftRight_exact (M j : Nat) (h : 2 ^ j ∣ M) :
    ExtendedMantissa.mk M false false >>> j = ⟨M / 2 ^ j, false, false⟩ := by
  induction j with
  | zero => simp [HShiftRight.hShiftRight, Nat.repeat]
  | succ j ih =>
    have hj : 2 ^ j ∣ M := Nat.pow_dvd_of_le_of_pow_dvd (Nat.le_succ j) h
    change ExtendedMantissa.shiftRightOne (ExtendedMantissa.mk M false false >>> j) = _
    rw [ih hj]
    obtain ⟨c, rfl⟩ := h
    have hpos : 0 < 2 ^ j := Nat.two_pow_pos j
    have hq : 2 ^ (j + 1) * c / 2 ^ j = 2 * c := by
      rw [Nat.pow_succ, Nat.mul_assoc, Nat.mul_div_cancel_left _ hpos]
    simp only [ExtendedMantissa.shiftRightOne, hq, Bool.or_false, ExtendedMantissa.mk.injEq]
    refine ⟨?_, by simp, trivial⟩
    rw [Nat.mul_div_cancel_left c (by norm_num), Nat.mul_div_cancel_left c (Nat.two_pow_pos _)]

theorem log2_mul_two_pow {N : Nat} (hN : 0 < N) (k : Nat) : (N * 2 ^ k).log2 = N.log2 + k := by
  have hlo := Nat.log2_self_le (Nat.ne_of_gt hN)
  have hhi := @Nat.lt_log2_self N
  have hk : 0 < 2 ^ k := Nat.two_pow_pos k
  rw [Nat.log2_eq_iff (Nat.ne_of_gt (Nat.mul_pos hN hk))]
  constructor
  · rw [Nat.pow_add]
    exact Nat.mul_le_mul_right _ hlo
  · rw [show N.log2 + k + 1 = N.log2 + 1 + k by omega, Nat.pow_add]
    exact Nat.mul_lt_mul_of_pos_right hhi hk

theorem totalExponent_mul_two_pow {N : Nat} (hN : 0 < N) (k : Nat) (e : Int) :
    totalExponent (N * 2 ^ k) (e - k) = totalExponent N e := by
  unfold totalExponent
  rw [log2_mul_two_pow hN]
  push_cast
  ring

/-- The exponent of the last significand bit of a single holding `N·2^e`: `23` bits below the
leading one, but never below the subnormal exponent `-149`. -/
def ulpExp (N : Nat) (e : Int) : Int := max ((N.log2 : Int) + e - 23) (-149)

theorem targetExponent_totalExponent {N : Nat} (hN : 0 < N) (j : Nat) (x e : Int) (hx : x + j = e) :
    Format.binary32.targetExponent (totalExponent (N * 2 ^ j) x) = ulpExp N e := by
  rw [show x = e - j by omega, totalExponent_mul_two_pow hN]
  simp only [Format.targetExponent, totalExponent, Format.mantissaBits, Format.minExponent, ulpExp]
  norm_num
  omega

theorem ulpExp_le {N : Nat} (hN : 0 < N) (hN' : N < 2 ^ 24) {e : Int} (he : -149 ≤ e) :
    ulpExp N e ≤ e := by
  have hlog : N.log2 < 24 := (Nat.log2_lt (Nat.ne_of_gt hN)).2 hN'
  unfold ulpExp
  omega

theorem shiftToTargetExponent_exact (M : Nat) (E : Int)
    (h : 2 ^ (Format.binary32.targetExponent (totalExponent M E) - E).toNat ∣ M) :
    shiftToTargetExponent Format.binary32 M E .exact =
      (⟨M / 2 ^ (Format.binary32.targetExponent (totalExponent M E) - E).toNat, false, false⟩,
        E + (Format.binary32.targetExponent (totalExponent M E) - E).toNat) := by
  simp only [shiftToTargetExponent, shiftToExponent, ExtendedMantissa.ofMantissaAndAccuracy]
  rw [shiftRight_exact _ _ h]

theorem mul_two_pow_div {N j b : Nat} (h : b ≤ j) : N * 2 ^ j / 2 ^ b = N * 2 ^ (j - b) := by
  rw [show j = (j - b) + b by omega, Nat.pow_add, ← Nat.mul_assoc,
    Nat.mul_div_cancel _ (Nat.two_pow_pos b), Nat.add_sub_cancel]

theorem roundWithAccuracy_exact (s : Sign) {N : Nat} (hN : 0 < N) (hN' : N < 2 ^ 24) (j : Nat)
    {e : Int} (he : -149 ≤ e) (hj : e - ulpExp N e ≤ j) :
    roundWithAccuracy Format.binary32 s (N * 2 ^ j) (e - j) .exact =
      .finite s (N * 2 ^ (e - ulpExp N e).toNat) (ulpExp N e)
        (Nat.mul_pos hN (Nat.two_pow_pos _)) := by
  have hte := ulpExp_le hN hN' he
  have ht₁ := targetExponent_totalExponent hN j (e - j) e (by omega)
  have hb : (ulpExp N e - (e - j)).toNat = j - (e - ulpExp N e).toNat := by omega
  have hdiv : 2 ^ (Format.binary32.targetExponent (totalExponent (N * 2 ^ j) (e - j)) -
      (e - j)).toNat ∣ N * 2 ^ j := by
    rw [ht₁, hb]
    exact Dvd.dvd.mul_left (Nat.pow_dvd_pow 2 (Nat.sub_le _ _)) N
  have ht₂ := targetExponent_totalExponent hN (e - ulpExp N e).toNat (ulpExp N e) e (by omega)
  have hdiv₂ : 2 ^ (Format.binary32.targetExponent
      (totalExponent (N * 2 ^ (e - ulpExp N e).toNat) (ulpExp N e)) - ulpExp N e).toNat ∣
      N * 2 ^ (e - ulpExp N e).toNat := by
    rw [ht₂, sub_self, Int.toNat_zero, Nat.pow_zero]
    exact Nat.one_dvd _
  unfold roundWithAccuracy
  rw [shiftToTargetExponent_exact _ _ hdiv, ht₁, hb, mul_two_pow_div (Nat.sub_le _ _),
    show j - (j - (e - ulpExp N e).toNat) = (e - ulpExp N e).toNat by omega]
  dsimp only [ExtendedMantissa.roundedMantissa, ExtendedMantissa.accuracy,
    Accuracy.roundToNearestEven]
  rw [show e - (j : Int) + ((j - (e - ulpExp N e).toNat : Nat) : Int) = ulpExp N e by omega,
    shiftToTargetExponent_exact _ _ hdiv₂, ht₂]
  have hpos : N * 2 ^ (e - ulpExp N e).toNat ≠ 0 :=
    Nat.ne_of_gt (Nat.mul_pos hN (Nat.two_pow_pos _))
  simp only [sub_self, Int.toNat_zero, Nat.pow_zero, Nat.div_one, Nat.cast_zero, add_zero]
  rw [dif_neg hpos]

/-- Rounding `N·2^e`, handed over as `N·2^k` at exponent `e - k`, returns it normalised: a
single holds every such value exactly. -/
theorem round_exact (s : Sign) {N : Nat} (hN : 0 < N) (hN' : N < 2 ^ 24) (k : Nat) {e : Int}
    (he : -149 ≤ e) :
    UnpackedFloat.round Format.binary32 s (N * 2 ^ k) (e - k) =
      .finite s (N * 2 ^ (e - ulpExp N e).toNat) (ulpExp N e)
        (Nat.mul_pos hN (Nat.two_pow_pos _)) := by
  have ht := targetExponent_totalExponent hN k (e - k) e (by omega)
  unfold UnpackedFloat.round
  rw [ht]
  simp only [decreaseExponent]
  rw [Nat.shiftLeft_eq, Nat.mul_assoc, ← Nat.pow_add,
    show e - (k : Int) - ((e - k - ulpExp N e).toNat : Int) =
      e - ((k + (e - k - ulpExp N e).toNat : Nat) : Int) by push_cast; ring]
  exact roundWithAccuracy_exact s hN hN' _ he (by omega)

theorem canonical_round {N : Nat} (hN : 0 < N) (hN' : N < 2 ^ 24) {e : Int} (he : -149 ≤ e)
    (he' : e ≤ 104) : Canonical (N * 2 ^ (e - ulpExp N e).toNat) (ulpExp N e) := by
  have hlo := Nat.log2_self_le (Nat.ne_of_gt hN)
  have hhi := @Nat.lt_log2_self N
  have hlog : N.log2 < 24 := (Nat.log2_lt (Nat.ne_of_gt hN)).2 hN'
  have hte := ulpExp_le hN hN' he
  have hd : N.log2 + 1 + (e - ulpExp N e).toNat ≤ 24 := by unfold ulpExp at *; omega
  refine ⟨?_, by unfold ulpExp; omega, by omega, ?_⟩
  · calc N * 2 ^ (e - ulpExp N e).toNat
        < 2 ^ (N.log2 + 1) * 2 ^ (e - ulpExp N e).toNat :=
          Nat.mul_lt_mul_of_pos_right hhi (Nat.two_pow_pos _)
      _ = 2 ^ (N.log2 + 1 + (e - ulpExp N e).toNat) := (Nat.pow_add _ _ _).symm
      _ ≤ 2 ^ 24 := Nat.pow_le_pow_right (by norm_num) hd
  · by_cases hsub : ulpExp N e = -149
    · exact .inr hsub
    · left
      have hd' : N.log2 + (e - ulpExp N e).toNat = 23 := by unfold ulpExp at *; omega
      calc 2 ^ 23 = 2 ^ N.log2 * 2 ^ (e - ulpExp N e).toNat := by rw [← Nat.pow_add, hd']
        _ ≤ N * 2 ^ (e - ulpExp N e).toNat := Nat.mul_le_mul_right _ hlo

theorem cast_mul_two_pow_zpow (N d : Nat) (t : Int) :
    ((N * 2 ^ d : Nat) : ℚ) * 2 ^ t = N * 2 ^ (t + d) := by
  rw [zpow_add₀ two_ne_zero, zpow_natCast]
  push_cast
  ring

theorem unpack_pack_zero (s : Sign) :
    unpack Format.binary32 (pack Format.binary32 (.zero s)) = .zero s := by
  simp [UnpackedFloat.pack, packedZero, UnpackedFloat.unpack, unpackExponent_packComponents,
    unpackMantissa_packComponents]

theorem normalize_exact {Z : Int} {N : Nat} (hN : 0 < N) (hN' : N < 2 ^ 24) (k : Nat)
    (hZ : Z.natAbs = N * 2 ^ k) {e : Int} (he : -149 ≤ e) (he' : e ≤ 104) :
    (Decoded.ofUnpacked (unpack Format.binary32 (pack Format.binary32
      (UnpackedFloat.normalize Format.binary32 Z (e - k) .positive)))).toRat =
      (Z.sign * N : ℤ) * 2 ^ e := by
  have hc := canonical_round hN hN' he he'
  have hv := cast_mul_two_pow_zpow N (e - ulpExp N e).toNat (ulpExp N e)
  rw [show ulpExp N e + ((e - ulpExp N e).toNat : Int) = e by
    have := ulpExp_le hN hN' he; omega] at hv
  unfold UnpackedFloat.normalize
  rcases lt_trichotomy Z 0 with hneg | hzero | hpos
  · have hZ' : (-Z).toNat = N * 2 ^ k := by omega
    rw [Int.compare_eq_lt.mpr hneg]
    dsimp only
    rw [hZ', round_exact .negative hN hN' k he, unpack_pack_canonical _ _ hc,
      ofUnpacked_finite_toRat, Int.sign_eq_neg_one_of_neg hneg]
    simp only [Sign.apply, Int.cast_neg, Int.cast_natCast, neg_mul, hv]
    push_cast
    ring
  · subst hzero
    have := Nat.mul_pos hN (Nat.two_pow_pos k)
    simp only [Int.natAbs_zero] at hZ
    omega
  · have hZ' : Z.toNat = N * 2 ^ k := by omega
    rw [Int.compare_eq_gt.mpr hpos]
    dsimp only
    rw [hZ', round_exact .positive hN hN' k he, unpack_pack_canonical _ _ hc,
      ofUnpacked_finite_toRat, Int.sign_eq_one_of_pos hpos]
    simp only [Sign.apply, Int.cast_natCast, hv]
    push_cast
    ring

theorem apply_cast_mul_two_pow_zpow (s : Sign) (N d : Nat) (t : Int) :
    (s.apply ((N * 2 ^ d : Nat) : Int) : ℚ) * 2 ^ t = (s.apply N : ℚ) * 2 ^ (t + d) := by
  cases s
  · simp only [Sign.apply, Int.cast_neg, Int.cast_natCast, neg_mul, cast_mul_two_pow_zpow]
  · simp only [Sign.apply, Int.cast_natCast, cast_mul_two_pow_zpow]

theorem sub_finite (s₁ s₂ : Sign) (m₁ m₂ : Nat) (e₁ e₂ : Int) (h₁ : 0 < m₁) (h₂ : 0 < m₂) :
    UnpackedFloat.sub Format.binary32 (.finite s₁ m₁ e₁ h₁) (.finite s₂ m₂ e₂ h₂) =
      UnpackedFloat.normalize Format.binary32
        (s₁.apply ((m₁ * 2 ^ (e₁ - min e₁ e₂).toNat : Nat) : Int) -
          s₂.apply ((m₂ * 2 ^ (e₂ - min e₁ e₂).toNat : Nat) : Int)) (min e₁ e₂) .positive := by
  simp only [UnpackedFloat.sub, decreaseExponent, Nat.shiftLeft_eq]

theorem isFinite_of_toRat_ne_zero {u : UnpackedFloat} (h : (Decoded.ofUnpacked u).toRat ≠ 0) :
    u.isFinite = true := by
  cases u with
  | notANumber | infinity _ => exact absurd rfl h
  | zero _ | finite _ _ _ _ => rfl

theorem sub_exact (s₁ s₂ : Sign) (m₁ m₂ : Nat) (e₁ e₂ : Int) (h₁ : 0 < m₁) (h₂ : 0 < m₂)
    {z e : Int} (hz : (s₁.apply m₁ : ℚ) * 2 ^ e₁ - (s₂.apply m₂ : ℚ) * 2 ^ e₂ = z * 2 ^ e)
    (hzb : z.natAbs < 2 ^ 24) (hE : min e₁ e₂ ≤ e) (he : -149 ≤ e) (he' : e ≤ 104) :
    (Decoded.ofUnpacked (unpack Format.binary32 (pack Format.binary32
      (UnpackedFloat.sub Format.binary32 (.finite s₁ m₁ e₁ h₁) (.finite s₂ m₂ e₂ h₂))))).toRat =
      z * 2 ^ e ∧
    (unpack Format.binary32 (pack Format.binary32
      (UnpackedFloat.sub Format.binary32 (.finite s₁ m₁ e₁ h₁) (.finite s₂ m₂ e₂ h₂)))).isFinite =
      true := by
  rw [sub_finite]
  generalize hZ : s₁.apply ((m₁ * 2 ^ (e₁ - min e₁ e₂).toNat : Nat) : Int) -
    s₂.apply ((m₂ * 2 ^ (e₂ - min e₁ e₂).toNat : Nat) : Int) = Z
  have hZv : (Z : ℚ) * 2 ^ min e₁ e₂ = z * 2 ^ e := by
    rw [← hZ, Int.cast_sub, sub_mul, apply_cast_mul_two_pow_zpow, apply_cast_mul_two_pow_zpow,
      show min e₁ e₂ + ((e₁ - min e₁ e₂).toNat : Int) = e₁ by omega,
      show min e₁ e₂ + ((e₂ - min e₁ e₂).toNat : Int) = e₂ by omega, hz]
  have hZz : Z = z * 2 ^ (e - min e₁ e₂).toNat := by
    have h2 : (2 : ℚ) ^ e = 2 ^ (e - min e₁ e₂).toNat * 2 ^ min e₁ e₂ := by
      rw [← zpow_natCast, ← zpow_add₀ two_ne_zero]
      congr 1
      omega
    rw [h2, ← mul_assoc] at hZv
    exact_mod_cast mul_right_cancel₀ (zpow_ne_zero _ two_ne_zero) hZv
  rw [show min e₁ e₂ = e - ((e - min e₁ e₂).toNat : Nat) by omega]
  by_cases hz0 : z = 0
  · subst hz0
    rw [zero_mul] at hZz
    subst hZz
    simp [UnpackedFloat.normalize, unpack_pack_zero, UnpackedFloat.isFinite]
  · have hN : 0 < z.natAbs := Int.natAbs_pos.mpr hz0
    have hZN : Z.natAbs = z.natAbs * 2 ^ (e - min e₁ e₂).toNat := by
      rw [hZz, Int.natAbs_mul, Int.natAbs_pow]
      rfl
    have hsign : Z.sign = z.sign := by
      rw [hZz, Int.sign_mul, Int.sign_eq_one_of_pos (pow_pos (by norm_num : (0 : Int) < 2) _),
        mul_one]
    have hv := normalize_exact hN hzb _ hZN he he'
    rw [hsign, Int.sign_mul_natAbs] at hv
    refine ⟨hv, isFinite_of_toRat_ne_zero ?_⟩
    rw [hv]
    exact mul_ne_zero (Int.cast_ne_zero.mpr hz0) (zpow_ne_zero _ two_ne_zero)

/-- The value of a single as a rational; NaN and the infinities count as zero. -/
def singleRat (x : Float32) : ℚ := (decodeSingle x).toRat

theorem unpack_sub (x y : Float32) :
    (x - y).toModel.unpack = unpack Format.binary32 (pack Format.binary32
      (UnpackedFloat.sub Format.binary32 x.toModel.unpack y.toModel.unpack)) :=
  rfl

theorem singleRat_eq (x : Float32) : singleRat x = (Decoded.ofUnpacked x.toModel.unpack).toRat := by
  rw [singleRat, decodeSingle_eq]

theorem isFinite_eq_unpack (x : Float32) : x.isFinite = x.toModel.unpack.isFinite := rfl

theorem isFinite_iff_decodeSingle (x : Float32) :
    x.isFinite = true ↔ ∃ neg m e, decodeSingle x = .finite neg m e := by
  rw [isFinite_eq_unpack, decodeSingle_eq]
  cases x.toModel.unpack <;> simp [UnpackedFloat.isFinite, Decoded.ofUnpacked]

theorem ofUnpacked_eq_zero {u : UnpackedFloat} {neg : Bool} {e : Int}
    (h : Decoded.ofUnpacked u = .finite neg 0 e) : ∃ s, u = .zero s := by
  cases u with
  | notANumber => cases h
  | infinity s => cases h
  | zero s => exact ⟨s, rfl⟩
  | finite s m e' hp =>
    obtain ⟨-, rfl, -⟩ := Decoded.finite.inj h
    omega

theorem unpack_of_decodeSingle {x : Float32} {neg : Bool} {m : Nat} {e : Int}
    (h : decodeSingle x = .finite neg m e) :
    (m = 0 ∧ ∃ s, x.toModel.unpack = .zero s) ∨
      (∃ s hp, x.toModel.unpack = .finite s m e hp ∧ Canonical m e) := by
  have hc : Canonical m e := canonical_of_decode h
  rw [decodeSingle_eq] at h
  rcases Nat.eq_zero_or_pos m with rfl | hm
  · exact .inl ⟨rfl, ofUnpacked_eq_zero h⟩
  · obtain ⟨s, hp, -, hu⟩ := ofUnpacked_eq_finite hm h
    exact .inr ⟨s, hp, hu, hc⟩

/-- Subtraction of two finite singles is exact when a single holds the difference: `z·2^e`
with `|z| < 2^24`, `e` in the single range and at or above the lower operand exponent; the
difference is then a finite single. -/
theorem singleRat_sub_exact {x y : Float32} {n₁ n₂ : Bool} {m₁ m₂ : Nat} {e₁ e₂ : Int}
    (hx : decodeSingle x = .finite n₁ m₁ e₁) (hy : decodeSingle y = .finite n₂ m₂ e₂)
    (hm₁ : 0 < m₁) (hm₂ : 0 < m₂) {z e : Int} (hz : singleRat x - singleRat y = z * 2 ^ e)
    (hzb : z.natAbs < 2 ^ 24) (hE : min e₁ e₂ ≤ e) (he : -149 ≤ e) (he' : e ≤ 104) :
    singleRat (x - y) = z * 2 ^ e ∧ (x - y).isFinite = true := by
  rcases unpack_of_decodeSingle hx with ⟨rfl, -⟩ | ⟨s₁, hp₁, hu₁, -⟩
  · omega
  rcases unpack_of_decodeSingle hy with ⟨rfl, -⟩ | ⟨s₂, hp₂, hu₂, -⟩
  · omega
  rw [singleRat_eq, singleRat_eq, hu₁, hu₂, ofUnpacked_finite_toRat, ofUnpacked_finite_toRat] at hz
  rw [isFinite_eq_unpack, singleRat_eq, unpack_sub, hu₁, hu₂]
  exact sub_exact s₁ s₂ m₁ m₂ e₁ e₂ hp₁ hp₂ hz hzb hE he he'

theorem singleRat_sub_zero {x y : Float32} {n₁ n₂ : Bool} {m₁ : Nat} {e₁ e₂ : Int}
    (hx : decodeSingle x = .finite n₁ m₁ e₁) (hy : decodeSingle y = .finite n₂ 0 e₂) :
    singleRat (x - y) = singleRat x ∧ (x - y).isFinite = true := by
  obtain ⟨s₂, hu₂⟩ := ofUnpacked_eq_zero (by rw [← decodeSingle_eq]; exact hy)
  rw [isFinite_eq_unpack, singleRat_eq, singleRat_eq, unpack_sub, hu₂]
  rcases unpack_of_decodeSingle hx with ⟨-, s₁, hu₁⟩ | ⟨s₁, hp₁, hu₁, hc⟩
  · rw [hu₁]
    simp only [UnpackedFloat.sub]
    split <;> simp [unpack_pack_zero, UnpackedFloat.isFinite]
  · rw [hu₁]
    simp only [UnpackedFloat.sub]
    rw [unpack_pack_canonical _ hp₁ hc]
    exact ⟨rfl, rfl⟩

theorem singleRat_sub_self {x : Float32} {n : Bool} {m : Nat} {e : Int}
    (hx : decodeSingle x = .finite n m e) : singleRat (x - x) = 0 ∧ (x - x).isFinite = true := by
  rcases Nat.eq_zero_or_pos m with rfl | hm
  · obtain ⟨hv, hfin⟩ := singleRat_sub_zero hx hx
    refine ⟨?_, hfin⟩
    rw [hv, singleRat, hx]
    simp [Decoded.toRat]
  · have hc := canonical_of_decode hx
    have hz : singleRat x - singleRat x = ((0 : Int) : ℚ) * 2 ^ e := by simp
    have h := singleRat_sub_exact hx hx hm hm hz (by norm_num) (min_le_left _ _) hc.2.1 hc.2.2.1
    simpa using h

theorem toRat_finite (neg : Bool) (m : Nat) (e : Int) :
    (Decoded.finite neg m e).toRat = (if neg then -(m : ℚ) else m) * 2 ^ e := rfl

end PointerAccel.Binary
