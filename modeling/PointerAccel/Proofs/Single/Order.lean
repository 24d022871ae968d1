import Mathlib
import PointerAccel.Proofs.Single.Rounding

/-!
# The order of finite singles

The float model compares two finite values by sign, then exponent, then significand. On the
canonical forms a single unpacks to, that is the order of their values, so on finite singles
`≤` and `<` are the order of `singleRat`:

* `compare_positive`: exponent-then-significand comparison of canonical positive values is
  the comparison of the values;
* `compare_canon`: the model's comparison of two zeros or canonical finite values is the
  comparison of their readings;
* `le_iff_singleRat_le`, `lt_iff_singleRat_lt`: the order of finite singles;
* `isFinite_of_le_of_le`, `isFinite_of_not_lt_of_lt`: a single caught between two finite
  singles by the comparisons a program makes is finite, NaN and the infinities failing one of
  them.
-/

namespace PointerAccel.Binary

open Float.Model Float.Model.UnpackedFloat

/-- The values a finite single unpacks to: a zero, or a canonical finite value. -/
def Canon : UnpackedFloat → Prop
  | .zero _ => True
  | .finite _ m e _ => Canonical m e
  | _ => False

theorem canon_unpack {x : Float32} (h : x.isFinite = true) : Canon x.toModel.unpack := by
  have hd := decodeSingle_eq x
  rw [isFinite_eq_unpack] at h
  generalize x.toModel.unpack = u at h hd
  cases u with
  | notANumber | infinity _ => cases h
  | zero _ => trivial
  | finite s m e hp => exact canonical_of_decode hd

theorem canonical_of_unpack {x : Float32} {s : Sign} {m : Nat} {e : Int} {hp : 0 < m}
    (hx : x.toModel.unpack = .finite s m e hp) : Canonical m e := by
  have h := canon_unpack (x := x) (by rw [isFinite_eq_unpack, hx]; rfl)
  rwa [hx] at h

theorem value_lt_of_exponent_lt {m₁ m₂ : Nat} {e₁ e₂ : Int} (hc₁ : Canonical m₁ e₁)
    (hc₂ : Canonical m₂ e₂) (he : e₁ < e₂) : (m₁ : ℚ) * 2 ^ e₁ < m₂ * 2 ^ e₂ := by
  have hm₂ : 2 ^ 23 ≤ m₂ := hc₂.2.2.2.resolve_right (by have := hc₁.2.1; omega)
  have hm₁ : (m₁ : ℚ) < 2 ^ 24 := by exact_mod_cast hc₁.1
  have hm₂' : (2 : ℚ) ^ 23 ≤ m₂ := by exact_mod_cast hm₂
  calc (m₁ : ℚ) * 2 ^ e₁ < 2 ^ 24 * 2 ^ e₁ := by gcongr
    _ = 2 ^ 23 * 2 ^ (e₁ + 1) := by rw [zpow_add_one₀ two_ne_zero]; ring
    _ ≤ 2 ^ 23 * 2 ^ e₂ := by gcongr; norm_num; omega
    _ ≤ m₂ * 2 ^ e₂ := by gcongr

theorem compare_mul_zpow (m₁ m₂ : Nat) (e : Int) :
    compare m₁ m₂ = compare ((m₁ : ℚ) * 2 ^ e) (m₂ * 2 ^ e) := by
  have hunit : (0 : ℚ) < 2 ^ e := by positivity
  rcases lt_trichotomy m₁ m₂ with h | rfl | h
  · have h' : (m₁ : ℚ) < m₂ := by exact_mod_cast h
    rw [compare_lt_iff_lt.2 h, compare_lt_iff_lt.2 (by gcongr)]
  · rw [compare_eq_iff_eq.2 rfl, compare_eq_iff_eq.2 rfl]
  · have h' : (m₂ : ℚ) < m₁ := by exact_mod_cast h
    rw [compare_gt_iff_gt.2 h, compare_gt_iff_gt.2 (by gcongr)]

theorem compare_positive {m₁ m₂ : Nat} {e₁ e₂ : Int} (hc₁ : Canonical m₁ e₁)
    (hc₂ : Canonical m₂ e₂) :
    (compare e₁ e₂).then (compare m₁ m₂) = compare ((m₁ : ℚ) * 2 ^ e₁) (m₂ * 2 ^ e₂) := by
  rcases lt_trichotomy e₁ e₂ with he | rfl | he
  · rw [compare_lt_iff_lt.2 he, compare_lt_iff_lt.2 (value_lt_of_exponent_lt hc₁ hc₂ he)]
    rfl
  · rw [compare_eq_iff_eq.2 rfl, Ordering.eq_then, compare_mul_zpow]
  · rw [compare_gt_iff_gt.2 he, compare_gt_iff_gt.2 (value_lt_of_exponent_lt hc₂ hc₁ he)]
    rfl

theorem compare_neg_neg (a b : ℚ) : compare (-a) (-b) = (compare a b).swap := by
  rcases lt_trichotomy a b with h | rfl | h
  · rw [compare_lt_iff_lt.2 h, compare_gt_iff_gt.2 (neg_lt_neg h)]
    rfl
  · rw [compare_eq_iff_eq.2 rfl, compare_eq_iff_eq.2 rfl]
    rfl
  · rw [compare_gt_iff_gt.2 h, compare_lt_iff_lt.2 (neg_lt_neg h)]
    rfl

theorem zero_lt_value {m : Nat} (e : Int) (hp : 0 < m) : (0 : ℚ) < m * 2 ^ e := by
  have : (0 : ℚ) < m := by exact_mod_cast hp
  positivity

theorem compare_canon {u w : UnpackedFloat} (hu : Canon u) (hw : Canon w) :
    u.compare w = some (compare (Decoded.ofUnpacked u).toRat (Decoded.ofUnpacked w).toRat) := by
  cases u with
  | notANumber | infinity _ => exact hu.elim
  | zero s =>
    cases w with
    | notANumber | infinity _ => exact hw.elim
    | zero s' => simp [UnpackedFloat.compare]
    | finite s' m e hp =>
      have hv := zero_lt_value e hp
      cases s'
      · simp only [UnpackedFloat.compare, ofUnpacked_zero_toRat, ofUnpacked_finite_toRat,
          Sign.apply, Int.cast_neg, Int.cast_natCast, neg_mul]
        rw [compare_gt_iff_gt.2 (by linarith)]
      · simp only [UnpackedFloat.compare, ofUnpacked_zero_toRat, ofUnpacked_finite_toRat,
          Sign.apply, Int.cast_natCast]
        rw [compare_lt_iff_lt.2 hv]
  | finite s m e hp =>
    have hv := zero_lt_value e hp
    cases w with
    | notANumber | infinity _ => exact hw.elim
    | zero s' =>
      cases s
      · simp only [UnpackedFloat.compare, ofUnpacked_zero_toRat, ofUnpacked_finite_toRat,
          Sign.apply, Int.cast_neg, Int.cast_natCast, neg_mul]
        rw [compare_lt_iff_lt.2 (by linarith)]
      · simp only [UnpackedFloat.compare, ofUnpacked_zero_toRat, ofUnpacked_finite_toRat,
          Sign.apply, Int.cast_natCast]
        rw [compare_gt_iff_gt.2 hv]
    | finite s' m' e' hp' =>
      have hv' := zero_lt_value e' hp'
      cases s <;> cases s' <;>
        simp only [UnpackedFloat.compare, ofUnpacked_finite_toRat, Sign.apply, Int.cast_neg,
          Int.cast_natCast, neg_mul]
      · rw [compare_positive hu hw, compare_neg_neg]
      · rw [compare_lt_iff_lt.2 (by linarith)]
      · rw [compare_gt_iff_gt.2 (by linarith)]
      · rw [compare_positive hu hw]

theorem le_iff_singleRat_le {x y : Float32} (hx : x.isFinite = true) (hy : y.isFinite = true) :
    x ≤ y ↔ singleRat x ≤ singleRat y := by
  rw [le_iff_unpack_le, singleRat_eq, singleRat_eq, UnpackedFloat.le,
    compare_canon (canon_unpack hx) (canon_unpack hy), Option.any_some, Std.LawfulBCmp.isLE_iff_le]

theorem lt_iff_singleRat_lt {x y : Float32} (hx : x.isFinite = true) (hy : y.isFinite = true) :
    x < y ↔ singleRat x < singleRat y := by
  rw [lt_iff_unpack_lt, singleRat_eq, singleRat_eq, UnpackedFloat.lt,
    compare_canon (canon_unpack hx) (canon_unpack hy), beq_iff_eq, Option.some.injEq,
    compare_lt_iff_lt]

/-- A single between two finite singles is finite: NaN compares with nothing, and each
infinity fails one of the two bounds. -/
theorem isFinite_of_le_of_le {lo x hi : Float32} (hlo : lo.isFinite = true)
    (hhi : hi.isFinite = true) (h₁ : lo ≤ x) (h₂ : x ≤ hi) : x.isFinite = true := by
  have clo := canon_unpack hlo
  have chi := canon_unpack hhi
  rw [le_iff_unpack_le] at h₁ h₂
  rw [isFinite_eq_unpack]
  generalize lo.toModel.unpack = a at *
  generalize hi.toModel.unpack = b at *
  generalize x.toModel.unpack = u at *
  cases u with
  | zero _ | finite _ _ _ _ => rfl
  | notANumber => simp [UnpackedFloat.le, UnpackedFloat.compare] at h₂
  | infinity s =>
    cases s
    · cases a <;> first | exact clo.elim | simp [UnpackedFloat.le, UnpackedFloat.compare] at h₁
    · cases b <;> first | exact chi.elim | simp [UnpackedFloat.le, UnpackedFloat.compare] at h₂

theorem isFinite_of_not_lt_of_lt {lo x hi : Float32} (hlo : lo.isFinite = true)
    (hhi : hi.isFinite = true) (h₁ : ¬ x < lo) (h₂ : x < hi) : x.isFinite = true := by
  have clo := canon_unpack hlo
  have chi := canon_unpack hhi
  rw [lt_iff_unpack_lt] at h₁ h₂
  rw [isFinite_eq_unpack]
  generalize lo.toModel.unpack = a at *
  generalize hi.toModel.unpack = b at *
  generalize x.toModel.unpack = u at *
  cases u with
  | zero _ | finite _ _ _ _ => rfl
  | notANumber => simp [UnpackedFloat.lt, UnpackedFloat.compare] at h₂
  | infinity s =>
    cases s
    · cases a <;> first | exact clo.elim | simp [UnpackedFloat.lt, UnpackedFloat.compare] at h₁
    · cases b <;> first | exact chi.elim | simp [UnpackedFloat.lt, UnpackedFloat.compare] at h₂

end PointerAccel.Binary
