import Mathlib
import PointerAccel.Proofs.Single.Correct

/-!
# Monotone single arithmetic

Correct rounding makes each operation of singles monotone wherever the exact operation is: a
sum in each summand, a product of nonnegative factors in each factor, and a quotient of a
nonnegative dividend antitone in a positive divisor. Operands can also be infinite. An
infinity plus a finite single is that infinity, and a finite single over `+∞` is a zero, so
the laws hold on the whole extended line as far as the results are not NaN.

* `le_posInfinity`, `negInfinity_le`: the infinities are the ends of the order;
* `add_le_add_right_single`: a sum is monotone in a summand that may be infinite, beside a
  finite one;
* `mul_le_mul_single`: products of finite nonnegative singles are monotone;
* `div_le_div_left_single`, `zero_le_div_single`, `div_le_self_single`: a nonnegative dividend
  over a positive divisor, which may be `+∞`.
-/

namespace PointerAccel.Binary

open Float.Model Float.Model.UnpackedFloat

variable {x x' y y' : Float32}

/-! ## The ends of the order -/

theorem isNaN_false_of_isFinite (hx : x.isFinite = true) : x.isNaN = false := by
  rw [isNaN_eq_unpack]
  rw [isFinite_eq_unpack] at hx
  cases h : x.toModel.unpack <;> simp_all [UnpackedFloat.isFinite, UnpackedFloat.isNaN]

theorem exists_unpack_infinity (hx : x.isNaN = false) (hf : x.isFinite = false) :
    ∃ s, x.toModel.unpack = .infinity s := by
  rw [isNaN_eq_unpack] at hx
  rw [isFinite_eq_unpack] at hf
  cases h : x.toModel.unpack with
  | infinity s => exact ⟨s, rfl⟩
  | _ => simp [h, UnpackedFloat.isNaN, UnpackedFloat.isFinite] at hx hf

theorem le_posInfinity (hx : x.isNaN = false) (hy : y.toModel.unpack = .infinity .positive) :
    x ≤ y := by
  rw [le_iff_unpack_le, hy]
  rw [isNaN_eq_unpack] at hx
  cases h : x.toModel.unpack with
  | notANumber => simp [h, UnpackedFloat.isNaN] at hx
  | infinity s => cases s <;> rfl
  | zero _ | finite _ _ _ _ => rfl

theorem negInfinity_le (hx : x.toModel.unpack = .infinity .negative) (hy : y.isNaN = false) :
    x ≤ y := by
  rw [le_iff_unpack_le, hx]
  rw [isNaN_eq_unpack] at hy
  cases h : y.toModel.unpack with
  | notANumber => simp [h, UnpackedFloat.isNaN] at hy
  | infinity s => cases s <;> rfl
  | zero _ | finite _ _ _ _ => rfl

theorem unpack_posInfinity_of_le (hx : x.isFinite = true) (hy : y.isFinite = false) (h : x ≤ y) :
    y.toModel.unpack = .infinity .positive := by
  have cx := canon_unpack hx
  rw [le_iff_unpack_le] at h
  rw [isFinite_eq_unpack] at hy
  generalize x.toModel.unpack = u at cx h
  generalize y.toModel.unpack = w at h hy
  cases w with
  | zero _ | finite _ _ _ _ => cases hy
  | notANumber => simp [UnpackedFloat.le, compare_notANumber_right] at h
  | infinity s =>
    cases s
    · cases u <;> first | exact cx.elim | simp [UnpackedFloat.le, UnpackedFloat.compare] at h
    · rfl

theorem unpack_negInfinity_of_le (hx : x.isFinite = false) (hy : y.isFinite = true) (h : x ≤ y) :
    x.toModel.unpack = .infinity .negative := by
  have cy := canon_unpack hy
  rw [le_iff_unpack_le] at h
  rw [isFinite_eq_unpack] at hx
  generalize y.toModel.unpack = w at cy h
  generalize x.toModel.unpack = u at h hx
  cases u with
  | zero _ | finite _ _ _ _ => cases hx
  | notANumber => simp [UnpackedFloat.le, UnpackedFloat.compare] at h
  | infinity s =>
    cases s
    · rfl
    · cases w <;> first | exact cy.elim | simp [UnpackedFloat.le, UnpackedFloat.compare] at h

theorem isFinite_one : (1.0 : Float32).isFinite = true := rfl

theorem singleRat_one : singleRat 1.0 = 1 := by
  rw [singleRat_eq, unpack_one, ofUnpacked_finite_toRat]
  simp only [Sign.apply]
  norm_num

theorem zero_lt_one_single : (0.0 : Float32) < 1.0 := by
  rw [lt_iff_singleRat_lt isZero_zero.isFinite isFinite_one, isZero_zero.singleRat_zero,
    singleRat_one]
  exact one_pos

theorem zero_lt_of_one_le_single (h : 1.0 ≤ x) : 0.0 < x :=
  single_lt_of_lt_of_le zero_lt_one_single h

theorem zero_le_of_one_le_single (h : 1.0 ≤ x) : 0.0 ≤ x :=
  single_le_of_lt (zero_lt_of_one_le_single h)

/-! ## Sums -/

theorem unpack_pack_infinity (s : Sign) :
    unpack Format.binary32 (pack Format.binary32 (.infinity s)) = .infinity s := by
  cases s <;> rfl

theorem add_of_unpack_infinity {s : Sign} (hx : x.toModel.unpack = .infinity s)
    (hy : y.isFinite = true) : x + y = x := by
  apply eq_of_unpack_eq
  rw [isFinite_eq_unpack] at hy
  rw [unpack_add, hx]
  cases h : y.toModel.unpack with
  | notANumber | infinity _ => simp [h, UnpackedFloat.isFinite] at hy
  | zero _ | finite _ _ _ _ => simp [UnpackedFloat.add, unpack_pack_infinity]

theorem add_isNaN_of_isFinite_right (hx : x.isNaN = false) (hy : y.isFinite = true) :
    (x + y).isNaN = false := by
  cases hfx : x.isFinite
  · rw [isNaN_eq_unpack] at hx
    rw [isFinite_eq_unpack] at hfx
    cases h : x.toModel.unpack with
    | infinity s => rw [add_of_unpack_infinity h hy, isNaN_eq_unpack, h]; rfl
    | _ => simp [h, UnpackedFloat.isNaN, UnpackedFloat.isFinite] at hx hfx
  · rw [(add_sameValue_roundSingle hfx hy).isNaN_eq]
    exact roundSingle_isNaN _

theorem add_le_add_right_single (h : x ≤ x') (hy : y.isFinite = true) : x + y ≤ x' + y := by
  obtain ⟨hx, hx'⟩ := isNaN_false_of_le h
  cases hfx : x.isFinite <;> cases hfx' : x'.isFinite
  · obtain ⟨s, hs⟩ := exists_unpack_infinity hx hfx
    obtain ⟨s', hs'⟩ := exists_unpack_infinity hx' hfx'
    rwa [add_of_unpack_infinity hs hy, add_of_unpack_infinity hs' hy]
  · rw [add_of_unpack_infinity (unpack_negInfinity_of_le hfx hfx' h) hy]
    exact negInfinity_le (unpack_negInfinity_of_le hfx hfx' h)
      (add_isNaN_of_isFinite_right hx' hy)
  · rw [add_of_unpack_infinity (unpack_posInfinity_of_le hfx hfx' h) hy]
    exact le_posInfinity (add_isNaN_of_isFinite_right hx hy)
      (unpack_posInfinity_of_le hfx hfx' h)
  · rw [(add_sameValue_roundSingle hfx hy).le_iff (add_sameValue_roundSingle hfx' hy)]
    apply roundSingle_mono
    have := (le_iff_singleRat_le hfx hfx').1 h
    linarith

/-! ## Products -/

theorem singleRat_nonneg (hx : x.isFinite = true) (h0 : 0.0 ≤ x) : 0 ≤ singleRat x := by
  have h := (le_iff_singleRat_le isZero_zero.isFinite hx).1 h0
  rwa [isZero_zero.singleRat_zero] at h

theorem zero_le_mul_single (hx : x.isFinite = true) (hy : y.isFinite = true) (h0x : 0.0 ≤ x)
    (h0y : 0.0 ≤ y) : 0.0 ≤ x * y := by
  rw [(SameValue.refl 0.0).le_iff (mul_sameValue_roundSingle hx hy)]
  exact zero_le_roundSingle (mul_nonneg (singleRat_nonneg hx h0x) (singleRat_nonneg hy h0y))

theorem mul_le_mul_single (hx : x.isFinite = true) (hx' : x'.isFinite = true)
    (hy : y.isFinite = true) (hy' : y'.isFinite = true) (hxx : x ≤ x') (hyy : y ≤ y')
    (h0x : 0.0 ≤ x) (h0y : 0.0 ≤ y) : x * y ≤ x' * y' := by
  rw [(mul_sameValue_roundSingle hx hy).le_iff (mul_sameValue_roundSingle hx' hy')]
  apply roundSingle_mono
  exact mul_le_mul ((le_iff_singleRat_le hx hx').1 hxx) ((le_iff_singleRat_le hy hy').1 hyy)
    (singleRat_nonneg hy h0y) ((singleRat_nonneg hx h0x).trans ((le_iff_singleRat_le hx hx').1 hxx))

/-! ## Quotients -/

theorem isZero_div_posInfinity (hx : x.isFinite = true)
    (hy : y.toModel.unpack = .infinity .positive) : IsZero (x / y) := by
  rw [isFinite_eq_unpack] at hx
  cases h : x.toModel.unpack with
  | notANumber | infinity _ => simp [h, UnpackedFloat.isFinite] at hx
  | zero s => exact @isZero_of_unpack (x / y) (s / .positive) (by rw [unpack_div, h, hy]; rfl)
  | finite s m e hp =>
    exact @isZero_of_unpack (x / y) (s / .positive) (by rw [unpack_div, h, hy]; rfl)

/-- Over a positive divisor, finite or `+∞`, a finite nonnegative dividend gives a quotient
that is not below zero. -/
theorem zero_le_div_single (hx : x.isFinite = true) (h0x : 0.0 ≤ x) (hy : 0.0 < y) :
    0.0 ≤ x / y := by
  cases hfy : y.isFinite
  · have hinf := unpack_posInfinity_of_le isZero_zero.isFinite hfy (single_le_of_lt hy)
    exact (SameValue.refl 0.0).le_iff (SameValue.of_isZero isZero_zero
      (isZero_div_posInfinity hx hinf)) |>.1 (single_le_refl isNaN_zero)
  · have hy0 := (lt_iff_singleRat_lt isZero_zero.isFinite hfy).1 hy
    rw [isZero_zero.singleRat_zero] at hy0
    rw [(SameValue.refl 0.0).le_iff (div_sameValue_roundSingle hx hfy hy0.ne')]
    exact zero_le_roundSingle (div_nonneg (singleRat_nonneg hx h0x) hy0.le)

/-- A finite nonnegative dividend over a positive divisor is antitone in the divisor, which may
be `+∞`. -/
theorem div_le_div_left_single (hx : x.isFinite = true) (h0x : 0.0 ≤ x) (hy : 0.0 < y)
    (hyy : y ≤ y') : x / y' ≤ x / y := by
  cases hfy' : y'.isFinite
  · have hinf := unpack_posInfinity_of_le isZero_zero.isFinite hfy'
      (single_le_trans (single_le_of_lt hy) hyy)
    exact ((SameValue.of_isZero (isZero_div_posInfinity hx hinf) isZero_zero).le_iff
      (SameValue.refl _)).2 (zero_le_div_single hx h0x hy)
  · have hfy := isFinite_of_le_of_le isZero_zero.isFinite hfy' (single_le_of_lt hy) hyy
    have hy0 := (lt_iff_singleRat_lt isZero_zero.isFinite hfy).1 hy
    rw [isZero_zero.singleRat_zero] at hy0
    have hyy' := (le_iff_singleRat_le hfy hfy').1 hyy
    rw [(div_sameValue_roundSingle hx hfy' (hy0.trans_le hyy').ne').le_iff
      (div_sameValue_roundSingle hx hfy hy0.ne')]
    exact roundSingle_mono (div_le_div_of_nonneg_left (singleRat_nonneg hx h0x) hy0 hyy')

/-- A finite nonnegative dividend over a divisor of at least one, finite or `+∞`, gives at most
the dividend. -/
theorem div_le_self_single (hx : x.isFinite = true) (h0x : 0.0 ≤ x) (hy : 1.0 ≤ y) :
    x / y ≤ x := by
  cases hfy : y.isFinite
  · have hinf := unpack_posInfinity_of_le isZero_zero.isFinite hfy
      (single_le_trans (single_le_of_lt zero_lt_one_single) hy)
    exact ((SameValue.of_isZero (isZero_div_posInfinity hx hinf) isZero_zero).le_iff
      (SameValue.refl _)).2 h0x
  · have hy1 := (le_iff_singleRat_le isFinite_one hfy).1 hy
    rw [singleRat_one] at hy1
    rw [(div_sameValue_roundSingle hx hfy (by linarith)).le_iff
      (roundSingle_singleRat_sameValue hx).symm]
    exact roundSingle_mono (div_le_self (singleRat_nonneg hx h0x) hy1)

end PointerAccel.Binary
