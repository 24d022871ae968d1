import Mathlib
import PointerAccel.Proofs.Single.Extended
import PointerAccel.Proofs.Nearest.Monotone
import PointerAccel.Proofs.Merge

/-!
# Rounding to the nearest single

`roundSingle v` is the single nearest to a rational `v`, ties to even, with overflow to the
infinity of the sign of `v`: the single whose bits `roundRat` gives for `v`. It is what the
engine's integer conversion computes, it gives a finite single back for the single's own value,
and it is monotone: a larger value never rounds to a smaller single.

* `singleExt_roundSingle_pos`: a positive value reads back as the value it rounds to, or as
  `⊤` once that is past the largest single;
* `roundSingle_neg`: a negative value rounds to the negation of its magnitude's rounding;
* `roundSingle_mono`: rounding is monotone;
* `roundSingle_singleRat`: a finite nonzero single is the rounding of its own value;
* `singleOfInt_eq_roundSingle`: the integer conversion rounds;
* `add_sameValue_roundSingle`, `sub_sameValue_roundSingle`, `mul_sameValue_roundSingle`,
  `div_sameValue_roundSingle`: the float model's arithmetic on finite singles is correctly
  rounded, up to the sign of a zero.
-/

namespace PointerAccel.Binary

open Float.Model Float.Model.UnpackedFloat BinaryFormat

/-- The single nearest to `v`, ties to even; past the largest finite single, the infinity of
the sign of `v`. -/
def roundSingle (v : ℚ) : Float32 :=
  singleOfBits (single.roundRat (decide (v < 0)) v.num.natAbs v.den)

theorem natAbs_num_div_den (v : ℚ) : (v.num.natAbs : ℚ) / v.den = |v| := by
  conv_rhs => rw [← Rat.num_div_den v]
  rw [abs_div, Nat.abs_cast, Nat.cast_natAbs, Int.cast_abs]

theorem isNaN_eq_false_iff {x : Float32} : x.isNaN = false ↔ decodeSingle x ≠ .nan := by
  rw [isNaN_eq_unpack, decodeSingle_eq]
  cases x.toModel.unpack <;> simp [Decoded.ofUnpacked, UnpackedFloat.isNaN]

theorem decode_infBits : single.decode single.infBits = .infinite false := by decide

/-- The largest finite single is below `2^128`, from where a value rounds to infinity. -/
def overflowBound : ℚ := 2 ^ (single.maxExp + single.fracBits + 1)

/-- A positive value rounds to some `w` and reads back as `w`, or as `⊤` when `w` is past the
largest single. -/
theorem singleExt_roundSingle_pos {v : ℚ} (hv : 0 < v) :
    ∃ w, RoundsTo single v w ∧ (roundSingle v).isNaN = false ∧
      singleExt (roundSingle v) = if w < overflowBound then ((w : WithTop ℚ) : ExtRat) else ⊤ := by
  have hnum : 0 < v.num.natAbs := Int.natAbs_pos.2 (Rat.num_ne_zero.2 hv.ne')
  have hval : (v.num.natAbs : ℚ) / v.den = v := by rw [natAbs_num_div_den, abs_of_pos hv]
  obtain ⟨w, hw, hcases⟩ := @roundRat_cases single (by decide) false _ _ hnum v.den_pos
  rw [hval] at hw
  have hsign : decide (v < 0) = false := decide_eq_false (not_lt.2 hv.le)
  have hdecode : decodeSingle (roundSingle v) = single.decode (single.roundRat false
      v.num.natAbs v.den) := by
    rw [roundSingle, hsign, decodeSingle_singleOfBits_mod]
  refine ⟨w, hw, ?_⟩
  rcases hcases with ⟨hlt, m, q, hbits, hfits, rfl⟩ | ⟨hge, hbits⟩
  · rw [hbits, decode_pack (by decide) false hfits] at hdecode
    refine ⟨isNaN_eq_false_iff.2 (by rw [hdecode]; exact Decoded.noConfusion), ?_⟩
    rw [if_pos (show (m : ℚ) * 2 ^ q < overflowBound from hlt), singleExt, hdecode, toExt_finite,
      toRat_finite]
    simp
  · rw [hbits, if_neg Bool.false_ne_true, Nat.zero_add, decode_infBits] at hdecode
    refine ⟨isNaN_eq_false_iff.2 (by rw [hdecode]; exact Decoded.noConfusion), ?_⟩
    rw [if_neg (show ¬ w < overflowBound from not_lt.2 hge), singleExt, hdecode,
      toExt_infinite_false]

theorem roundSingle_zero : roundSingle 0 = 0.0 := eq_of_unpack_eq rfl

theorem isNaN_zero : (0.0 : Float32).isNaN = false := rfl

theorem singleExt_zero : singleExt 0.0 = 0 := by
  rw [singleExt_of_isFinite isZero_zero.isFinite, isZero_zero.singleRat_zero]
  rfl

theorem roundSingle_neg {v : ℚ} (hv : v < 0) : roundSingle v = -roundSingle (-v) := by
  rw [roundSingle, roundSingle, decide_eq_true hv, decide_eq_false (by linarith), Rat.neg_num,
    Int.natAbs_neg, Rat.neg_den, roundRat_true, singleOfBits_signBit_add]

theorem roundSingle_isNaN (v : ℚ) : (roundSingle v).isNaN = false := by
  rcases lt_trichotomy v 0 with hv | rfl | hv
  · rw [roundSingle_neg hv, isNaN_neg]
    obtain ⟨w, -, hnan, -⟩ := singleExt_roundSingle_pos (neg_pos.2 hv)
    exact hnan
  · rw [roundSingle_zero]
    rfl
  · obtain ⟨w, -, hnan, -⟩ := singleExt_roundSingle_pos hv
    exact hnan

theorem roundSingle_mono_pos {v v' : ℚ} (hv : 0 < v) (h : v ≤ v') :
    roundSingle v ≤ roundSingle v' := by
  obtain ⟨w, hw, hnan, hext⟩ := singleExt_roundSingle_pos hv
  obtain ⟨w', hw', hnan', hext'⟩ := singleExt_roundSingle_pos (hv.trans_le h)
  have hle : w ≤ w' := hw.mono hw' h
  rw [le_iff_singleExt_le hnan hnan', hext, hext']
  split_ifs with h₁ h₂ h₂
  · exact_mod_cast hle
  · exact le_top
  · exact absurd (hle.trans_lt h₂) h₁
  · exact le_rfl

theorem zero_le_roundSingle {v : ℚ} (hv : 0 ≤ v) : 0.0 ≤ roundSingle v := by
  rcases hv.lt_or_eq with hv | rfl
  · obtain ⟨w, hw, hnan, hext⟩ := singleExt_roundSingle_pos hv
    rw [le_iff_singleExt_le isNaN_zero hnan, hext, singleExt_zero]
    split_ifs
    · exact_mod_cast hw.nonneg
    · exact le_top
  · rw [roundSingle_zero]
    exact isZero_zero.le_zero

theorem roundSingle_le_zero {v : ℚ} (hv : v ≤ 0) : roundSingle v ≤ 0.0 := by
  rcases hv.lt_or_eq with hv | rfl
  · have h0 := (neg_le_neg_iff_single (roundSingle_isNaN (-v)) isNaN_zero).2
      (zero_le_roundSingle (neg_pos.2 hv).le)
    rw [← roundSingle_neg hv] at h0
    exact single_le_trans h0 isZero_zero.neg.le_zero
  · rw [roundSingle_zero]
    exact isZero_zero.le_zero

theorem roundSingle_mono {v v' : ℚ} (h : v ≤ v') : roundSingle v ≤ roundSingle v' := by
  rcases lt_or_ge 0 v with hv | hv
  · exact roundSingle_mono_pos hv h
  rcases lt_or_ge v' 0 with hv' | hv'
  · have hmag := roundSingle_mono_pos (neg_pos.2 hv') (neg_le_neg h)
    rw [← neg_le_neg_iff_single (roundSingle_isNaN _) (roundSingle_isNaN _),
      ← roundSingle_neg hv', ← roundSingle_neg (h.trans_lt hv')] at hmag
    exact hmag
  · exact single_le_trans (roundSingle_le_zero hv) (zero_le_roundSingle hv')

/-! ## The singles' own values -/

theorem exists_unpack_finite {x : Float32} (hx : x.isFinite = true) (hx0 : singleRat x ≠ 0) :
    ∃ s m e hp, x.toModel.unpack = .finite s m e hp := by
  have cx := canon_unpack hx
  rw [singleRat_eq] at hx0
  revert cx hx0
  cases x.toModel.unpack with
  | finite s m e hp => exact fun _ _ => ⟨s, m, e, hp, rfl⟩
  | zero s => exact fun h _ => absurd (ofUnpacked_zero_toRat s) h
  | notANumber | infinity _ => exact fun _ cx => cx.elim

theorem abs_sign_apply (s : Sign) {m : Nat} (e : Int) (hp : 0 < m) :
    |((s.apply m : Int) : ℚ) * 2 ^ e| = m * 2 ^ e ∧
      decide (((s.apply m : Int) : ℚ) * 2 ^ e < 0) = signNeg s := by
  have hv := zero_lt_value e hp
  cases s <;> simp [Sign.apply, signNeg, abs_of_pos hv, hv, hv.le]

theorem pack_finite_eq_roundRat (s : Sign) {m : Nat} {e : Int} (hp : 0 < m) (hc : Canonical m e)
    {num den : Nat} (hden : 0 < den) (hv : (num : ℚ) / den = m * 2 ^ e) :
    (UnpackedFloat.pack Format.binary32 (.finite s m e hp)).toNat =
      single.roundRat (signNeg s) num den := by
  have h := round_exact s hp hc.1 0 hc.2.1
  simp only [pow_zero, mul_one, Nat.cast_zero, sub_zero, ulpExp_canonical hp hc, sub_self,
    Int.toNat_zero] at h
  have hround : UnpackedFloat.round Format.binary32 s m e = .finite s m e hp := h
  rw [← hround, pack_round formatMatch_single s hp e hden hv]

theorem roundSingle_singleRat {x : Float32} (hx : x.isFinite = true) (hx0 : singleRat x ≠ 0) :
    roundSingle (singleRat x) = x := by
  obtain ⟨s, m, e, hp, hu⟩ := exists_unpack_finite hx hx0
  have hc := canonical_of_unpack hu
  have hval : singleRat x = ((s.apply m : Int) : ℚ) * 2 ^ e := by
    rw [singleRat_eq, hu, ofUnpacked_finite_toRat]
  obtain ⟨habs, hsign⟩ := abs_sign_apply s e hp
  rw [← hval] at habs hsign
  apply decodeSingle_injective
  rw [roundSingle, hsign, ← pack_finite_eq_roundRat s hp hc (Rat.den_pos _)
    (by rw [natAbs_num_div_den, habs]), decodeSingle_singleOfBits_mod, decode_toNat,
    unpack_pack_canonical s hp hc, decodeSingle_eq, hu]

theorem roundSingle_singleRat_sameValue {x : Float32} (hx : x.isFinite = true) :
    SameValue (roundSingle (singleRat x)) x := by
  by_cases hx0 : singleRat x = 0
  · rw [hx0, roundSingle_zero]
    exact .of_isZero isZero_zero (isZero_of_singleRat hx hx0)
  · rw [roundSingle_singleRat hx hx0]
    exact .refl x

theorem sameValue_of_singleRat_eq {x y : Float32} (hx : x.isFinite = true) (hy : y.isFinite = true)
    (h : singleRat x = singleRat y) : SameValue x y :=
  (roundSingle_singleRat_sameValue hx).symm.trans (h ▸ roundSingle_singleRat_sameValue hy)

theorem singleOfInt_eq_roundSingle (z : Int) : singleOfInt z = roundSingle z := by
  rw [singleOfInt_eq, roundSingle, Rat.num_intCast, Rat.den_intCast]
  congr 3
  simp only [Int.cast_lt_zero]

/-! ## Correctly rounded arithmetic -/

theorem sub_eq_add_neg_unpacked (spec : Format) (u w : UnpackedFloat) :
    UnpackedFloat.sub spec u w = UnpackedFloat.add spec u w.neg := by
  cases u <;> cases w <;> simp only [UnpackedFloat.sub, UnpackedFloat.add, UnpackedFloat.neg]
  case finite.finite s m e hp s' m' e' hp' => rw [sign_apply_neg, sub_eq_add_neg]

theorem sub_eq_add_neg_single (x y : Float32) : x - y = x + -y :=
  eq_of_unpack_eq (by rw [unpack_sub, unpack_add, unpack_neg, sub_eq_add_neg_unpacked])

theorem sign_apply_mul (s₁ s₂ : Sign) (a b : Int) :
    (s₁ * s₂).apply (a * b) = s₁.apply a * s₂.apply b := by
  cases s₁ <;> cases s₂
  case negative.negative => change a * b = -a * -b; ring
  case negative.positive => change -(a * b) = -a * b; ring
  case positive.negative => change -(a * b) = a * -b; ring
  case positive.positive => rfl

theorem abs_sign_div (s₁ s₂ : Sign) {m₁ m₂ : Nat} (e₁ e₂ : Int) (h₁ : 0 < m₁) (h₂ : 0 < m₂) :
    |((s₁.apply m₁ : Int) : ℚ) * 2 ^ e₁ / (((s₂.apply m₂ : Int) : ℚ) * 2 ^ e₂)| =
        m₁ * 2 ^ e₁ / (m₂ * 2 ^ e₂) ∧
      decide (((s₁.apply m₁ : Int) : ℚ) * 2 ^ e₁ / (((s₂.apply m₂ : Int) : ℚ) * 2 ^ e₂) < 0) =
        signNeg (s₁ / s₂) := by
  have hq := div_pos (zero_lt_value e₁ h₁) (zero_lt_value e₂ h₂)
  cases s₁ <;> cases s₂
  case negative.negative =>
    change _ ∧ _ = false
    simp [Sign.apply, neg_div_neg_eq, abs_of_pos hq, hq.le]
  case negative.positive =>
    change _ ∧ _ = true
    simp [Sign.apply, neg_div, abs_of_pos hq, hq]
  case positive.negative =>
    change _ ∧ _ = true
    simp [Sign.apply, div_neg, abs_of_pos hq, hq]
  case positive.positive =>
    change _ ∧ _ = false
    simp [Sign.apply, abs_of_pos hq, hq.le]

section Arithmetic

variable {x y : Float32}

theorem add_sameValue_roundSingle (hx : x.isFinite = true) (hy : y.isFinite = true) :
    SameValue (x + y) (roundSingle (singleRat x + singleRat y)) := by
  by_cases hx0 : singleRat x = 0
  · rw [hx0, zero_add]
    by_cases hy0 : singleRat y = 0
    · rw [hy0, roundSingle_zero]
      exact .of_isZero (isZero_add (isZero_of_singleRat hx hx0) (isZero_of_singleRat hy hy0))
        isZero_zero
    · obtain ⟨s, m, e, hp, hu⟩ := exists_unpack_finite hy hy0
      rw [roundSingle_singleRat hy hy0,
        eq_of_unpack_eq (unpack_isZero_add (isZero_of_singleRat hx hx0) hu)]
      exact .refl y
  by_cases hy0 : singleRat y = 0
  · obtain ⟨s, m, e, hp, hu⟩ := exists_unpack_finite hx hx0
    rw [hy0, add_zero, roundSingle_singleRat hx hx0, add_comm,
      eq_of_unpack_eq (unpack_isZero_add (isZero_of_singleRat hy hy0) hu)]
    exact .refl x
  by_cases hs : singleRat x + singleRat y = 0
  · rw [hs, roundSingle_zero]
    exact .of_isZero ⟨_, unpack_add_cancel hx hy hx0 hy0 hs⟩ isZero_zero
  · rw [← singleOfBits_bitsOf (x + y),
      bitsOf_add hx hy hx0 hy0 hs (Rat.den_pos _) (natAbs_num_div_den _)]
    exact .refl _

theorem sub_sameValue_roundSingle (hx : x.isFinite = true) (hy : y.isFinite = true) :
    SameValue (x - y) (roundSingle (singleRat x - singleRat y)) := by
  rw [sub_eq_add_neg_single, sub_eq_add_neg, ← singleRat_neg]
  exact add_sameValue_roundSingle hx (by rwa [isFinite_neg])

theorem pack_mul_finite (s₁ s₂ : Sign) {m₁ m₂ : Nat} {e₁ e₂ : Int} (h₁ : 0 < m₁) (h₂ : 0 < m₂)
    (hc₁ : Canonical m₁ e₁) (hc₂ : Canonical m₂ e₂) {num den : Nat} (hden : 0 < den)
    (hv : (num : ℚ) / den = m₁ * m₂ * 2 ^ (e₁ + e₂)) :
    (UnpackedFloat.pack Format.binary32 (UnpackedFloat.mul Format.binary32
      (.finite s₁ m₁ e₁ h₁) (.finite s₂ m₂ e₂ h₂))).toNat =
      single.roundRat (signNeg (s₁ * s₂)) num den := by
  have hM : 0 < m₁ * m₂ := Nat.mul_pos h₁ h₂
  have he : e₁ + e₂ ≤ Format.binary32.targetExponent (totalExponent (m₁ * m₂) (e₁ + e₂)) := by
    rw [targetExponent_of_match formatMatch_single]
    have hfrac : single.fracBits = 23 := rfl
    have hmin : single.minExp = -149 := by decide
    rw [hfrac, hmin]
    have hlog : ∀ {m : Nat}, 2 ^ 23 ≤ m → m ≤ m₁ * m₂ → 23 ≤ (m₁ * m₂).log2 := fun hn hm =>
      (Nat.le_log2 hM.ne').2 (hn.trans hm)
    rcases hc₁.2.2.2 with hn₁ | hs₁
    · have := hlog hn₁ (Nat.le_mul_of_pos_right _ h₂)
      omega
    rcases hc₂.2.2.2 with hn₂ | hs₂
    · have := hlog hn₂ (Nat.le_mul_of_pos_left _ h₁)
      omega
    · omega
  have hmul : UnpackedFloat.mul Format.binary32 (.finite s₁ m₁ e₁ h₁) (.finite s₂ m₂ e₂ h₂) =
      roundWithAccuracy Format.binary32 (s₁ * s₂) (m₁ * m₂) (e₁ + e₂) (accuracyOfFraction 0 1) :=
    rfl
  rw [hmul, pack_roundWithAccuracy formatMatch_single _ hM one_pos one_pos he hden]
  rw [hv]
  push_cast
  ring

/-- The product of two finite singles is their exact product rounded, up to the sign of a
zero. -/
theorem mul_sameValue_roundSingle (hx : x.isFinite = true) (hy : y.isFinite = true) :
    SameValue (x * y) (roundSingle (singleRat x * singleRat y)) := by
  by_cases hx0 : singleRat x = 0
  · rw [hx0, zero_mul, roundSingle_zero]
    exact .of_isZero (isZero_mul_left (isZero_of_singleRat hx hx0) hy) isZero_zero
  by_cases hy0 : singleRat y = 0
  · rw [hy0, mul_zero, roundSingle_zero]
    exact .of_isZero (isZero_mul_right hx (isZero_of_singleRat hy hy0)) isZero_zero
  obtain ⟨s₁, m₁, e₁, h₁, hu₁⟩ := exists_unpack_finite hx hx0
  obtain ⟨s₂, m₂, e₂, h₂, hu₂⟩ := exists_unpack_finite hy hy0
  have hval : singleRat x * singleRat y =
      (((s₁ * s₂).apply (m₁ * m₂ : Nat) : Int) : ℚ) * 2 ^ (e₁ + e₂) := by
    rw [singleRat_eq, singleRat_eq, hu₁, hu₂, ofUnpacked_finite_toRat, ofUnpacked_finite_toRat,
      Nat.cast_mul, sign_apply_mul, zpow_add₀ two_ne_zero]
    push_cast
    ring
  obtain ⟨habs, hsign⟩ := abs_sign_apply (s₁ * s₂) (e₁ + e₂) (Nat.mul_pos h₁ h₂)
  rw [← hval] at habs hsign
  rw [← singleOfBits_bitsOf (x * y)]
  change SameValue (singleOfBits (UnpackedFloat.pack Format.binary32
    (UnpackedFloat.mul Format.binary32 x.toModel.unpack y.toModel.unpack)).toNat) _
  rw [hu₁, hu₂, pack_mul_finite s₁ s₂ h₁ h₂ (canonical_of_unpack hu₁) (canonical_of_unpack hu₂)
    (Rat.den_pos _) (by rw [natAbs_num_div_den, habs]; push_cast; ring), ← hsign]
  exact .refl _

/-- The quotient of a finite single by a finite nonzero one is their exact quotient rounded, up
to the sign of a zero: subnormal and vanishing quotients included. -/
theorem div_sameValue_roundSingle (hx : x.isFinite = true) (hy : y.isFinite = true)
    (hy0 : singleRat y ≠ 0) : SameValue (x / y) (roundSingle (singleRat x / singleRat y)) := by
  obtain ⟨s₂, m₂, e₂, h₂, hu₂⟩ := exists_unpack_finite hy hy0
  by_cases hx0 : singleRat x = 0
  · obtain ⟨s₁, hu₁⟩ := isZero_of_singleRat hx hx0
    rw [hx0, zero_div, roundSingle_zero]
    exact .of_isZero (isZero_of_unpack (by rw [unpack_div, hu₁, hu₂]; rfl)) isZero_zero
  obtain ⟨s₁, m₁, e₁, h₁, hu₁⟩ := exists_unpack_finite hx hx0
  obtain ⟨habs, hsign⟩ := abs_sign_div s₁ s₂ e₁ e₂ h₁ h₂
  rw [← ofUnpacked_finite_toRat s₁ m₁ e₁ h₁, ← ofUnpacked_finite_toRat s₂ m₂ e₂ h₂, ← hu₁, ← hu₂,
    ← singleRat_eq, ← singleRat_eq] at habs hsign
  rw [← singleOfBits_bitsOf (x / y)]
  change SameValue (singleOfBits (UnpackedFloat.pack Format.binary32
    (UnpackedFloat.div Format.binary32 x.toModel.unpack y.toModel.unpack)).toNat) _
  rw [hu₁, hu₂, pack_div formatMatch_single s₁ s₂ h₁ h₂ (Rat.den_pos _)
    (by rw [natAbs_num_div_den, habs]), ← hsign]
  exact .refl _

end Arithmetic

end PointerAccel.Binary
