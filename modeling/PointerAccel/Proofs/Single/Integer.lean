import Mathlib
import PointerAccel.Proofs.Single.Bounds
import PointerAccel.Proofs.Single.Order
import PointerAccel.Engine.Sample

/-!
# Whole numbers in single precision

A single holds every integer up to `2^24` in magnitude exactly, and larger ones when their low
bits are zero. The engine converts deltas to singles, adds them, and rounds the result back to
an integer; on whole numbers of moderate size none of these steps loses anything:

* `singleRat_singleOfInt_small`, `singleRat_singleOfInt_of_le`: integers up to `2^24` convert
  exactly;
* `singleRat_singleOfInt`: an integer that survives the round trip converts exactly, however
  large;
* `singleRat_add_int`: the sum of two singles holding whole numbers is exact when the total is
  at most `2^24` in magnitude;
* `roundAway_isFinite`: rounding a finite single to an integer stays finite.
-/

namespace PointerAccel.Binary

open Float.Model Float.Model.UnpackedFloat

/-! ## Conversion -/

theorem singleOfInt_eq (z : Int) :
    singleOfInt z = singleOfBits (BinaryFormat.single.roundRat (decide (z < 0)) z.natAbs 1) := rfl

theorem signed_natAbs (z : Int) :
    ((if decide (z < 0) then -(z.natAbs : Int) else z.natAbs) : Int) = z := by
  split <;> rename_i h <;> simp only [decide_eq_true_eq] at h <;> omega

theorem signed_natAbs_rat (z : Int) :
    (if decide (z < 0) then -(z.natAbs : ℚ) else z.natAbs) = z := by
  split <;> rename_i h <;> simp only [decide_eq_true_eq] at h
  · have hz : ((z.natAbs : Nat) : Int) = -z := by omega
    rw [← Int.cast_natCast, hz, Int.cast_neg, neg_neg]
  · have hz : ((z.natAbs : Nat) : Int) = z := by omega
    rw [← Int.cast_natCast, hz]

theorem singleRat_singleOfInt_small {z : Int} (hz : z.natAbs < 2 ^ 24) :
    singleRat (singleOfInt z) = z ∧ (singleOfInt z).isFinite = true ∧
      RawSample.roundTrips z = true := by
  rw [singleOfInt_eq, RawSample.roundTrips, singleOfInt_eq]
  rcases Nat.eq_zero_or_pos z.natAbs with h0 | hpos
  · have hz0 : z = 0 := Int.natAbs_eq_zero.mp h0
    subst hz0
    have hd := decodeSingle_roundRat_zero false
    simp only [Int.natAbs_zero, lt_self_iff_false, decide_false] at hd ⊢
    refine ⟨?_, (isFinite_iff_decodeSingle _).2 ⟨_, _, _, hd⟩, ?_⟩
    · rw [singleRat, hd]
      simp [Decoded.toRat]
    · rw [hd]
      decide
  · have hd := decodeSingle_roundRat_small_int (decide (z < 0)) hpos hz
    refine ⟨?_, (isFinite_iff_decodeSingle _).2 ⟨_, _, _, hd⟩, ?_⟩
    · rw [singleRat, hd, toRat_small_int _ hpos hz, signed_natAbs_rat]
    · rw [hd, truncInt_small_int _ hpos hz, signed_natAbs, beq_self_eq_true]

theorem decodeSingle_two_pow_24 :
    decodeSingle (singleOfInt (2 ^ 24)) = .finite false (2 ^ 23) 1 := by decide +kernel

theorem decodeSingle_neg_two_pow_24 :
    decodeSingle (singleOfInt (-2 ^ 24)) = .finite true (2 ^ 23) 1 := by decide +kernel

theorem singleRat_singleOfInt_of_le {z : Int} (hz : z.natAbs ≤ 2 ^ 24) :
    singleRat (singleOfInt z) = z ∧ (singleOfInt z).isFinite = true := by
  rcases Nat.lt_or_eq_of_le hz with hlt | heq
  · exact (singleRat_singleOfInt_small hlt).imp_right And.left
  · have hz' : z = 2 ^ 24 ∨ z = -2 ^ 24 := by omega
    rcases hz' with rfl | rfl
    · refine ⟨?_, (isFinite_iff_decodeSingle _).2 ⟨_, _, _, decodeSingle_two_pow_24⟩⟩
      rw [singleRat, decodeSingle_two_pow_24, toRat_finite]
      norm_num
    · refine ⟨?_, (isFinite_iff_decodeSingle _).2 ⟨_, _, _, decodeSingle_neg_two_pow_24⟩⟩
      rw [singleRat, decodeSingle_neg_two_pow_24, toRat_finite]
      norm_num

theorem toRat_eq_truncInt {neg : Bool} {m : Nat} {e : Int} (he : 0 ≤ e) :
    (Decoded.finite neg m e).toRat = (Decoded.finite neg m e).truncInt := by
  have h2 : (2 : ℚ) ^ e = ((Nat.pow 2 e.toNat : Nat) : ℚ) := by
    rw [Nat.pow_eq]
    push_cast
    rw [← zpow_natCast]
    congr 1
    omega
  cases neg <;> simp [Decoded.truncInt, Decoded.toRat, he, h2]

theorem truncInt_natAbs_lt {neg : Bool} {m : Nat} {e : Int} (hm : m < 2 ^ 24) (he : e < 0) :
    (Decoded.finite neg m e).truncInt.natAbs < 2 ^ 24 := by
  have hdiv : m / Nat.pow 2 (-e).toNat ≤ m := Nat.div_le_self _ _
  cases neg <;> simp only [Decoded.truncInt, show ¬ (0 ≤ e) by omega, ↓reduceIte,
    Bool.false_eq_true, Int.natAbs_neg, Int.natAbs_natCast] <;> omega

theorem singleRat_singleOfInt {z : Int} (h : RawSample.roundTrips z = true) :
    singleRat (singleOfInt z) = z ∧ (singleOfInt z).isFinite = true := by
  by_cases hs : z.natAbs < 2 ^ 24
  · exact (singleRat_singleOfInt_small hs).imp_right And.left
  rw [RawSample.roundTrips, beq_iff_eq] at h
  rw [singleRat, isFinite_iff_decodeSingle]
  generalize hd : decodeSingle (singleOfInt z) = d at h
  cases d with
  | nan | infinite _ => simp [Decoded.truncInt] at h; omega
  | finite neg m e =>
    have hc := canonical_of_decode hd
    by_cases he : 0 ≤ e
    · exact ⟨by rw [toRat_eq_truncInt he, h], _, _, _, rfl⟩
    · have := @truncInt_natAbs_lt neg m e hc.1 (by omega)
      rw [h] at this
      omega

/-! ## Sums -/

theorem sign_apply_neg (s : Sign) (n : Int) : (-s).apply n = -(s.apply n) := by
  cases s
  · exact (Int.neg_neg n).symm
  · rfl

theorem add_finite_eq_sub (s₁ s₂ : Sign) (m₁ m₂ : Nat) (e₁ e₂ : Int) (h₁ : 0 < m₁) (h₂ : 0 < m₂) :
    UnpackedFloat.add Format.binary32 (.finite s₁ m₁ e₁ h₁) (.finite s₂ m₂ e₂ h₂) =
      UnpackedFloat.sub Format.binary32 (.finite s₁ m₁ e₁ h₁) (.finite (-s₂) m₂ e₂ h₂) := by
  rw [add_finite, sub_finite, sign_apply_neg, sub_neg_eq_add]

theorem int_sum_repr (s₁ s₂ : Sign) {m₁ m₂ : Nat} {e₁ e₂ : Int} (he₁ : e₁ ≤ 104) {v : Int}
    (hv : (s₁.apply m₁ : ℚ) * 2 ^ e₁ + (s₂.apply m₂ : ℚ) * 2 ^ e₂ = v)
    (hvb : v.natAbs ≤ 2 ^ 24) :
    ∃ z e : Int, (v : ℚ) = z * 2 ^ e ∧ z.natAbs < 2 ^ 24 ∧ min e₁ e₂ ≤ e ∧ -149 ≤ e ∧
      e ≤ 104 := by
  by_cases hd : 1 ≤ min e₁ e₂
  · set d := min e₁ e₂ with hd_def
    set Z : Int := s₁.apply ((m₁ * 2 ^ (e₁ - d).toNat : Nat) : Int) +
      s₂.apply ((m₂ * 2 ^ (e₂ - d).toNat : Nat) : Int) with hZ_def
    have hZ : (v : ℚ) = Z * 2 ^ d := by
      rw [← hv, hZ_def, Int.cast_add, add_mul, apply_cast_mul_two_pow_zpow,
        apply_cast_mul_two_pow_zpow, show d + ((e₁ - d).toNat : Int) = e₁ by omega,
        show d + ((e₂ - d).toNat : Int) = e₂ by omega]
    have hZv : v = Z * 2 ^ d.toNat := by
      have h2 : (2 : ℚ) ^ d = ((2 ^ d.toNat : Int) : ℚ) := by
        push_cast
        rw [← zpow_natCast]
        congr 1
        omega
      rw [h2, ← Int.cast_mul] at hZ
      exact_mod_cast hZ
    have hpow : 2 ≤ 2 ^ d.toNat := by
      calc 2 = 2 ^ 1 := rfl
        _ ≤ 2 ^ d.toNat := Nat.pow_le_pow_right (by norm_num) (by omega)
    have hZb : Z.natAbs * 2 ≤ 2 ^ 24 := by
      have habs : v.natAbs = Z.natAbs * 2 ^ d.toNat := by
        rw [hZv, Int.natAbs_mul, Int.natAbs_pow]
        rfl
      calc Z.natAbs * 2 ≤ Z.natAbs * 2 ^ d.toNat := Nat.mul_le_mul_left _ hpow
        _ ≤ 2 ^ 24 := habs ▸ hvb
    exact ⟨Z, d, hZ, by omega, le_rfl, by omega, by omega⟩
  · by_cases hlt : v.natAbs < 2 ^ 24
    · exact ⟨v, 0, by simp, hlt, by omega, by norm_num, by norm_num⟩
    · refine ⟨v / 2, 1, ?_, by omega, by omega, by norm_num, by norm_num⟩
      have h2 : v = v / 2 * 2 := by omega
      rw [zpow_one]
      exact_mod_cast h2

/-- The sum of two finite singles holding whole numbers is exact when the total is at most
`2^24` in magnitude. -/
theorem singleRat_add_int {x y : Float32} {a b : Int} (hx : x.isFinite = true)
    (hy : y.isFinite = true) (ha : singleRat x = a) (hb : singleRat y = b)
    (hab : (a + b).natAbs ≤ 2 ^ 24) :
    singleRat (x + y) = ((a + b : Int) : ℚ) ∧ (x + y).isFinite = true := by
  have cx := canon_unpack hx
  have cy := canon_unpack hy
  rw [singleRat_eq] at ha hb
  rw [singleRat_eq, isFinite_eq_unpack, unpack_add]
  generalize x.toModel.unpack = u at cx ha
  generalize y.toModel.unpack = w at cy hb
  cases u with
  | notANumber | infinity _ => exact cx.elim
  | zero s =>
    cases w with
    | notANumber | infinity _ => exact cy.elim
    | zero s' =>
      simp only [ofUnpacked_zero_toRat] at ha hb
      have hsum : ((a + b : Int) : ℚ) = 0 := by push_cast; rw [← ha, ← hb, add_zero]
      rw [hsum]
      simp only [UnpackedFloat.add]
      split <;> simp [unpack_pack_zero, UnpackedFloat.isFinite]
    | finite s' m e hp =>
      simp only [ofUnpacked_zero_toRat, ofUnpacked_finite_toRat] at ha hb
      simp only [UnpackedFloat.add]
      rw [unpack_pack_canonical _ hp cy, ofUnpacked_finite_toRat]
      push_cast
      exact ⟨by rw [hb, ← ha, zero_add], rfl⟩
  | finite s m e hp =>
    cases w with
    | notANumber | infinity _ => exact cy.elim
    | zero s' =>
      simp only [ofUnpacked_zero_toRat, ofUnpacked_finite_toRat] at ha hb
      simp only [UnpackedFloat.add]
      rw [unpack_pack_canonical _ hp cx, ofUnpacked_finite_toRat]
      push_cast
      exact ⟨by rw [ha, ← hb, add_zero], rfl⟩
    | finite s' m' e' hp' =>
      simp only [ofUnpacked_finite_toRat] at ha hb
      have hv : (s.apply m : ℚ) * 2 ^ e + (s'.apply m' : ℚ) * 2 ^ e' = ((a + b : Int) : ℚ) := by
        push_cast
        rw [ha, hb]
      obtain ⟨z, t, hz, hzb, hE, ht, ht'⟩ := int_sum_repr s s' cx.2.2.1 hv hab
      have hdiff : (s.apply m : ℚ) * 2 ^ e - ((-s').apply m' : ℚ) * 2 ^ e' = z * 2 ^ t := by
        rw [sign_apply_neg, Int.cast_neg, neg_mul, sub_neg_eq_add, hv, hz]
      rw [add_finite_eq_sub, hz]
      exact sub_exact s (-s') m m' e e' hp hp' hdiff hzb hE ht ht'

/-! ## Rounding to an integer -/

theorem roundAway_isFinite {x : Float32} (hx : x.isFinite = true) :
    (roundAway x).isFinite = true := by
  obtain ⟨neg, m, e, hd⟩ := (isFinite_iff_decodeSingle x).1 hx
  by_cases he : 0 ≤ e
  · rw [roundAway_of_nonneg hd he]
    exact hx
  have hc := canonical_of_decode hd
  have hdpos : 2 ≤ 2 ^ (-e).toNat := by
    calc 2 = 2 ^ 1 := rfl
      _ ≤ 2 ^ (-e).toNat := Nat.pow_le_pow_right (by norm_num) (by omega)
  obtain ⟨hlo, -⟩ := half_away_bounds m (show 0 < 2 ^ (-e).toNat by omega)
  rw [roundAway_of_neg hd (by omega), isFinite_iff_decodeSingle]
  have hk := half_away_le hc.1 hdpos hlo
  generalize (2 * m + 2 ^ (-e).toNat) / (2 * 2 ^ (-e).toNat) = k at hk
  rcases Nat.eq_zero_or_pos k with rfl | hk0
  · exact ⟨_, _, _, decodeSingle_roundRat_zero neg⟩
  · exact ⟨_, _, _, decodeSingle_roundRat_small_int neg hk0 (by omega)⟩

end PointerAccel.Binary
