import Mathlib
import PointerAccel.Proofs.Single.Monotone

/-!
# The shape of the gain curve

The gain at a rate is the rate itself up to zero, and the curve of the mode beyond. For a
finite acceleration not below zero, an exponent not below zero for the classic curve, a finite
midpoint for the motivity curve, and a math library whose `exp` and `pow` behave as the
platform's do, this map is monotone over all finite rates, across the splice at zero
included, and the motivity curve stays between zero and the acceleration. Each step of a
curve is one rounded operation, so the argument is the monotonicity of rounded arithmetic,
with products and sums that overflow to `+∞` kept in it.

* `Libm.Shaped`: what the curves need of `exp` and `pow`;
* `ParamSet.CurveShaped`: the conditions on the parameters;
* `one_le_linear`, `linear_mono`: the linear curve, and the base of the classic one;
* `one_le_motivityDenominator`, `motivityDenominator_anti`: the denominator of the motivity
  curve;
* `zero_le_curveWith`, `curveWith_mono`: each curve is nonnegative and monotone at positive
  rates;
* `gainAtWith_mono`: the gain is monotone over all finite rates;
* `gain_curve_is_monotone`: the two laws together, for the map the engine's gain uses.
-/

namespace PointerAccel

open PointerAccel.Binary

/-- What the curves need of the math library: `exp` monotone and not below zero away from NaN,
and `pow` at least one and monotone in the base, for a base of at least one and an exponent not
below zero. -/
structure Libm.Shaped (lib : Libm) : Prop where
  exp_mono : ∀ x y : Float32, x ≤ y → lib.exp x ≤ lib.exp y
  exp_nonneg : ∀ x : Float32, x.isNaN = false → 0.0 ≤ lib.exp x
  one_le_pow : ∀ b e : Float32, 1.0 ≤ b → 0.0 ≤ e → 1.0 ≤ lib.pow b e
  pow_mono : ∀ b b' e : Float32, 1.0 ≤ b → b ≤ b' → 0.0 ≤ e → lib.pow b e ≤ lib.pow b' e

theorem Libm.shaped_const {c d : Float32} (hc : 0.0 ≤ c) (hd : 1.0 ≤ d) :
    Libm.Shaped ⟨fun _ => c, fun _ _ => d⟩ where
  exp_mono _ _ _ := single_le_refl (isNaN_false_of_le hc).2
  exp_nonneg _ _ := hc
  one_le_pow _ _ _ _ := hd
  pow_mono _ _ _ _ _ _ := single_le_refl (isNaN_false_of_le hd).2

/-- The parameters under which the gain curve is monotone: a finite acceleration not below
zero, an exponent not below zero for the classic curve and a finite midpoint for the motivity
curve. -/
structure ParamSet.CurveShaped (p : ParamSet) : Prop where
  acceleration_finite : p.acceleration.isFinite = true
  acceleration_nonneg : 0.0 ≤ p.acceleration
  exponent_nonneg : p.mode = .classic → 0.0 ≤ p.exponent
  midpoint_finite : p.mode = .motivity → p.midpoint.isFinite = true

theorem gain_eq_gainAtWith (dx dy ms : Float32) (p : ParamSet) :
    gain dx dy ms p = gainAtWith .platform (rate dx dy ms p) p := rfl

theorem zero_add_one_single : (0.0 : Float32) + 1.0 = 1.0 :=
  eq_of_unpack_eq (unpack_isZero_add isZero_zero unpack_one)

section Curves

variable {lib : Libm} {p : ParamSet} {r r' : Float32}

/-! ## The linear curve -/

theorem one_le_linear (hp : p.CurveShaped) (hr : r.isFinite = true) (h0 : 0.0 ≤ r) :
    1.0 ≤ r * p.acceleration + 1.0 := by
  have hmul := zero_le_mul_single hr hp.acceleration_finite h0 hp.acceleration_nonneg
  have h := add_le_add_right_single hmul isFinite_one
  rwa [zero_add_one_single] at h

theorem linear_mono (hp : p.CurveShaped) (hr : r.isFinite = true) (hr' : r'.isFinite = true)
    (h0 : 0.0 ≤ r) (h : r ≤ r') : r * p.acceleration + 1.0 ≤ r' * p.acceleration + 1.0 := by
  have hacc := hp.acceleration_finite
  have hmul := mul_le_mul_single hr hr' hacc hacc h (single_le_refl (isNaN_false_of_isFinite hacc))
    h0 hp.acceleration_nonneg
  exact add_le_add_right_single hmul isFinite_one

/-! ## The motivity curve -/

theorem sub_isNaN_of_isFinite {x y : Float32} (hx : x.isFinite = true) (hy : y.isFinite = true) :
    (x - y).isNaN = false := by
  rw [sub_eq_add_neg_single]
  exact add_isNaN_of_isFinite_right (isNaN_false_of_isFinite hx) (by rwa [isFinite_neg])

theorem one_le_motivityDenominator (hlib : lib.Shaped) (hm : p.midpoint.isFinite = true)
    (hr : r.isFinite = true) : 1.0 ≤ 1.0 + lib.exp (p.midpoint - r) := by
  have hexp := hlib.exp_nonneg _ (sub_isNaN_of_isFinite hm hr)
  have h := add_le_add_right_single hexp isFinite_one
  rwa [zero_add_one_single, add_comm] at h

/-- The denominator of the motivity curve falls as the rate rises: `m - r` falls, and `exp`
and the sum with one keep the order. -/
theorem motivityDenominator_anti (hlib : lib.Shaped) (hm : p.midpoint.isFinite = true)
    (hr : r.isFinite = true) (hr' : r'.isFinite = true) (h : r ≤ r') :
    1.0 + lib.exp (p.midpoint - r') ≤ 1.0 + lib.exp (p.midpoint - r) := by
  have hneg : -r' ≤ -r :=
    (neg_le_neg_iff_single (isNaN_false_of_isFinite hr') (isNaN_false_of_isFinite hr)).2 h
  have hsub : p.midpoint - r' ≤ p.midpoint - r := by
    rw [sub_eq_add_neg_single, sub_eq_add_neg_single, add_comm, add_comm p.midpoint]
    exact add_le_add_right_single hneg hm
  have hexp := add_le_add_right_single (hlib.exp_mono _ _ hsub) isFinite_one
  rwa [add_comm, add_comm (lib.exp _)] at hexp

/-! ## Each curve at a positive rate -/

theorem zero_le_curveWith (hlib : lib.Shaped) (hp : p.CurveShaped) (hr : r.isFinite = true)
    (h0 : 0.0 < r) : 0.0 ≤ curveWith lib r p := by
  have h0' := single_le_of_lt h0
  unfold curveWith
  cases hmode : p.mode with
  | linear => exact zero_le_of_one_le_single (one_le_linear hp hr h0')
  | classic =>
    exact zero_le_of_one_le_single
      (hlib.one_le_pow _ _ (one_le_linear hp hr h0') (hp.exponent_nonneg hmode))
  | motivity =>
    exact zero_le_div_single hp.acceleration_finite hp.acceleration_nonneg
      (zero_lt_of_one_le_single (one_le_motivityDenominator hlib (hp.midpoint_finite hmode) hr))
  | passthrough => exact h0'

theorem curveWith_mono (hlib : lib.Shaped) (hp : p.CurveShaped) (hr : r.isFinite = true)
    (hr' : r'.isFinite = true) (h0 : 0.0 < r) (h : r ≤ r') :
    curveWith lib r p ≤ curveWith lib r' p := by
  have h0' := single_le_of_lt h0
  unfold curveWith
  cases hmode : p.mode with
  | linear => exact linear_mono hp hr hr' h0' h
  | classic =>
    exact hlib.pow_mono _ _ _ (one_le_linear hp hr h0') (linear_mono hp hr hr' h0' h)
      (hp.exponent_nonneg hmode)
  | motivity =>
    have hm := hp.midpoint_finite hmode
    exact div_le_div_left_single hp.acceleration_finite hp.acceleration_nonneg
      (zero_lt_of_one_le_single (one_le_motivityDenominator hlib hm hr'))
      (motivityDenominator_anti hlib hm hr hr' h)
  | passthrough => exact h

theorem motivity_between (hlib : lib.Shaped) (hp : p.CurveShaped) (hmode : p.mode = .motivity)
    (hr : r.isFinite = true) :
    0.0 ≤ curveWith lib r p ∧ curveWith lib r p ≤ p.acceleration := by
  have hden := one_le_motivityDenominator hlib (hp.midpoint_finite hmode) hr
  unfold curveWith
  rw [hmode]
  exact ⟨zero_le_div_single hp.acceleration_finite hp.acceleration_nonneg
      (zero_lt_of_one_le_single hden),
    div_le_self_single hp.acceleration_finite hp.acceleration_nonneg hden⟩

/-! ## The gain -/

/-- The gain is monotone over all finite rates: up to zero it is the rate, beyond it a curve
that is at least zero and monotone. -/
theorem gainAtWith_mono (hlib : lib.Shaped) (hp : p.CurveShaped) (hr : r.isFinite = true)
    (hr' : r'.isFinite = true) (h : r ≤ r') : gainAtWith lib r p ≤ gainAtWith lib r' p := by
  have hn := isNaN_false_of_isFinite hr
  have hn' := isNaN_false_of_isFinite hr'
  unfold gainAtWith
  split_ifs with hle hle' hle'
  · exact h
  · exact single_le_trans hle
      (zero_le_curveWith hlib hp hr' (single_lt_of_not_le hn' isNaN_zero hle'))
  · exact absurd (single_le_trans h hle') hle
  · exact curveWith_mono hlib hp hr hr' (single_lt_of_not_le hn isNaN_zero hle) h

end Curves

/-- The shape of the gain curve. For a finite acceleration not below zero (an exponent not
below zero for the classic curve, a finite midpoint for the motivity curve) and a math library
whose `exp` is monotone and not below zero and whose `pow` is at least one and monotone in a
base of at least one, the gain map, which is the rate up to zero and the curve beyond, is
monotone over all finite rates; the motivity gain at a positive rate lies between zero and the
acceleration; and this map, with the platform's library, is the engine's gain at the rate of a
displacement. -/
theorem gain_curve_is_monotone (lib : Libm) (hlib : lib.Shaped) (p : ParamSet)
    (hp : p.CurveShaped) :
    (∀ r r' : Float32, r.isFinite = true → r'.isFinite = true → r ≤ r' →
      gainAtWith lib r p ≤ gainAtWith lib r' p) ∧
    (p.mode = .motivity → ∀ r : Float32, r.isFinite = true → 0.0 < r →
      0.0 ≤ gainAtWith lib r p ∧ gainAtWith lib r p ≤ p.acceleration) ∧
    (∀ dx dy ms : Float32, gain dx dy ms p = gainAtWith .platform (rate dx dy ms p) p) := by
  refine ⟨fun r r' hr hr' h => gainAtWith_mono hlib hp hr hr' h, ?_,
    fun dx dy ms => gain_eq_gainAtWith dx dy ms p⟩
  intro hmode r hr h0
  unfold gainAtWith
  rw [if_neg (single_not_le_of_lt h0)]
  exact motivity_between hlib hp hmode hr

/-- A library whose `exp` gives zero and whose `pow` gives one (as `expf` does at `-500` and
`powf` does at a zero exponent) and a motivity curve of acceleration `2` about the midpoint `0`
meet the conditions; the gain then rises from the rate `-500` to the rate `500`, where it lies
between zero and the acceleration. -/
theorem motivity_gain_rises_across_zero :
    ∃ (lib : Libm) (p : ParamSet), lib.Shaped ∧ p.CurveShaped ∧ p.mode = .motivity ∧
      gainAtWith lib (-500.0) p ≤ gainAtWith lib 500.0 p ∧
      0.0 ≤ gainAtWith lib 500.0 p ∧ gainAtWith lib 500.0 p ≤ 2.0 := by
  have hlib := Libm.shaped_const (single_le_refl isNaN_zero)
    (single_le_refl (isNaN_false_of_isFinite isFinite_one))
  have hp : ParamSet.CurveShaped
      { ParamSet.default with mode := .motivity, acceleration := 2.0, midpoint := 0.0 } :=
    ⟨by decide, by decide, fun h => (by cases h), fun _ => by decide⟩
  obtain ⟨hmono, hbound, -⟩ := gain_curve_is_monotone _ hlib _ hp
  exact ⟨_, _, hlib, hp, rfl, hmono _ _ (by decide) (by decide) (by decide),
    hbound rfl _ (by decide) (by decide)⟩

end PointerAccel
