import Mathlib
import PointerAccel.Proofs.Nearest.Shift
import PointerAccel.Proofs.Nearest.Pack
import PointerAccel.Proofs.Decimal.Nearest

/-!
# The float model rounds as `roundRat` does

The model rounds an exact value given as a significand `M` at exponent `e` with a remainder
`r / D` below its last place: it shifts the significand to the target exponent of the format,
rounds by the round and sticky bits, and moves a carry into the next binade. `roundRat` rounds
`num / den` from its own binade search. On the same value the two give the same bits, in any
pair of matching formats: the float model's arithmetic is rounded to nearest, ties to even,
exactly as the engine's own conversions are.

* `binadeExp_bounds_of`: the binade `roundRat` finds holds the value, in any format;
* `shiftToTargetExponent_nearest`: the first shift of the model rounds at the target exponent;
* `pack_roundWithAccuracy`: the packed result of the model's rounding is `roundRat`'s;
* `pack_roundWithAccuracy_zero`: so is that of a value below one last place at the lowest
  exponent, which the division hands over as a zero significand;
* `pack_div`: the packed quotient of two nonzero finite values is `roundRat`'s bits for the
  exact quotient.
-/

namespace PointerAccel.Binary

open Float.Model Float.Model.UnpackedFloat BinaryFormat

/-! ## Binades -/

/-- The binade found for `num / den` holds it: `2^(B+p) ≤ num / den < 2^(B+p+1)` for the
stored fraction width `p`. -/
theorem binadeExp_bounds_of (f : BinaryFormat) {num den : Nat} (hnum : 0 < num) (hden : 0 < den) :
    (2 : ℚ) ^ (f.binadeExp num den + f.fracBits) ≤ num / den ∧
      (num : ℚ) / den < 2 ^ (f.binadeExp num den + f.fracBits + 1) := by
  obtain ⟨ha, ha'⟩ := two_zpow_log2_bounds hnum
  obtain ⟨hb, hb'⟩ := two_zpow_log2_bounds hden
  have hd : (0 : ℚ) < den := by exact_mod_cast hden
  set q₀ : Int := (Nat.log2 num : Int) - Nat.log2 den - f.fracBits with hq₀
  have hlow : (2 : ℚ) ^ (q₀ + f.fracBits - 1) < num / den := by
    rw [lt_div_iff₀ hd]
    calc (2 : ℚ) ^ (q₀ + f.fracBits - 1) * den
        < 2 ^ (q₀ + f.fracBits - 1) * 2 ^ ((Nat.log2 den : Int) + 1) :=
          mul_lt_mul_of_pos_left hb' (zpow_pos (by norm_num) _)
      _ = 2 ^ (Nat.log2 num : Int) := by rw [← zpow_add₀ two_ne_zero]; congr 1; omega
      _ ≤ num := ha
  have hhigh : (num : ℚ) / den < 2 ^ (q₀ + f.fracBits + 1) := by
    rw [div_lt_iff₀ hd]
    calc (num : ℚ) < 2 ^ ((Nat.log2 num : Int) + 1) := ha'
      _ = 2 ^ (q₀ + f.fracBits + 1) * 2 ^ (Nat.log2 den : Int) := by
          rw [← zpow_add₀ two_ne_zero]; congr 1; omega
      _ ≤ 2 ^ (q₀ + f.fracBits + 1) * den :=
          mul_le_mul_of_nonneg_left hb (zpow_pos (by norm_num) _).le
  have hguess : f.binadeExp num den =
      if scaledFloor num den q₀ < f.hidden then q₀ - 1 else q₀ := rfl
  have hfloor : scaledFloor num den q₀ < f.hidden ↔ (num : ℚ) / den < 2 ^ (q₀ + f.fracBits) := by
    rw [hidden_eq, scaledFloor_lt_iff hden, div_lt_iff₀ (zpow_pos (by norm_num) _),
      zpow_add₀ two_ne_zero, mul_comm, zpow_natCast]
    push_cast
    rfl
  rw [hguess]
  split_ifs with h
  · rw [hfloor] at h
    refine ⟨?_, ?_⟩
    · rw [show q₀ - 1 + f.fracBits = q₀ + f.fracBits - 1 by ring]
      exact hlow.le
    · rwa [show q₀ - 1 + f.fracBits + 1 = q₀ + f.fracBits by ring]
  · rw [hfloor] at h
    exact ⟨not_lt.mp h, hhigh⟩

theorem value_bounds {M r D : Nat} (hM : 0 < M) (hD : 0 < D) (hr : r < D) (e : Int) :
    (2 : ℚ) ^ ((M.log2 : Int) + e) ≤ (M + r / D) * 2 ^ e ∧
      ((M : ℚ) + r / D) * 2 ^ e < 2 ^ ((M.log2 : Int) + e + 1) := by
  obtain ⟨hlo, hhi⟩ := two_zpow_log2_bounds hM
  have hD' : (0 : ℚ) < D := by exact_mod_cast hD
  have hfrac : (0 : ℚ) ≤ r / D := by positivity
  have hfrac' : (r : ℚ) / D < 1 := by rw [div_lt_one hD']; exact_mod_cast hr
  have hnext : (M : ℚ) + 1 ≤ 2 ^ ((M.log2 : Int) + 1) := by
    rw [show (M.log2 : Int) + 1 = ((M.log2 + 1 : Nat) : Int) by push_cast; rfl, zpow_natCast]
    exact_mod_cast Nat.lt_log2_self
  have hpos : (0 : ℚ) < 2 ^ e := zpow_pos (by norm_num) e
  constructor
  · rw [zpow_add₀ two_ne_zero]
    exact mul_le_mul_of_nonneg_right (by linarith) hpos.le
  · rw [show (M.log2 : Int) + e + 1 = (M.log2 : Int) + 1 + e by ring, zpow_add₀ two_ne_zero]
    exact mul_lt_mul_of_pos_right (by linarith) hpos

theorem targetExponent_of_match {F : Format} {f : BinaryFormat} (hf : FormatMatch F f) (M : Nat)
    (e : Int) : F.targetExponent (totalExponent M e) = max ((M.log2 : Int) + e - f.fracBits) f.minExp := by
  rw [Format.targetExponent, totalExponent, hf.mantissaBits_eq, hf.minExponent_eq]
  congr 1
  push_cast
  ring

/-! ## The two shifts of the model -/

/-- The first shift of the model brings the significand to the target exponent and rounds the
exact value there to nearest, ties to even. -/
theorem shiftToTargetExponent_nearest (F : Format) (M : Nat) {r D : Nat} (hD : 0 < D) (hr : r < D)
    {e : Int} (he : e ≤ F.targetExponent (totalExponent M e)) :
    (shiftToTargetExponent F M e (accuracyOfFraction r D)).2 =
        F.targetExponent (totalExponent M e) ∧
      NearestEven (shiftToTargetExponent F M e (accuracyOfFraction r D)).1.roundedMantissa
        ((M + r / D) * 2 ^ e / 2 ^ F.targetExponent (totalExponent M e)) := by
  set t := F.targetExponent (totalExponent M e)
  have hk : (((t - e).toNat : Nat) : Int) = t - e := Int.toNat_of_nonneg (by omega)
  refine ⟨by simp only [shiftToTargetExponent, shiftToExponent]; omega, ?_⟩
  have hval : ((M : ℚ) + r / D) * 2 ^ e / 2 ^ t = (M + r / D) / 2 ^ (t - e).toNat := by
    rw [← zpow_natCast, hk, zpow_sub₀ two_ne_zero]
    field_simp
  rw [hval]
  exact ((describes_ofMantissaAndAccuracy M hD hr).shiftRight _).nearestEven

theorem shiftToTargetExponent_of_fits (F : Format) {m : Nat} {t : Int}
    (hm : m < 2 ^ F.mantissaBits) (ht : F.minExponent ≤ t) :
    shiftToTargetExponent F m t .exact = (⟨m, false, false⟩, t) := by
  have hlog : (m.log2 : Int) < F.mantissaBits := by
    rcases Nat.eq_zero_or_pos m with rfl | hpos
    · simp only [Nat.log2_zero, Format.mantissaBits]
      omega
    · exact_mod_cast (Nat.log2_lt (Nat.ne_of_gt hpos)).2 hm
  have hz : (F.targetExponent (totalExponent m t) - t).toNat = 0 := by
    unfold Format.targetExponent totalExponent
    omega
  simp [shiftToTargetExponent, shiftToExponent, hz, HShiftRight.hShiftRight, Nat.repeat,
    ExtendedMantissa.ofMantissaAndAccuracy]

theorem shiftToTargetExponent_of_carry (F : Format) {t : Int} (ht : F.minExponent ≤ t) :
    shiftToTargetExponent F (2 ^ F.mantissaBits) t .exact =
      (⟨2 ^ F.mantissaBitsWithoutImplicit, false, false⟩, t + 1) := by
  have htarget : F.targetExponent (totalExponent (2 ^ F.mantissaBits) t) = t + 1 := by
    simp only [Format.targetExponent, totalExponent, Nat.log2_two_pow]
    omega
  have hhalf : 2 ^ F.mantissaBits / 2 = 2 ^ F.mantissaBitsWithoutImplicit := by
    rw [Format.mantissaBits, Nat.add_comm, Nat.pow_succ, Nat.mul_div_cancel _ (by norm_num)]
  have hodd : 2 ^ F.mantissaBits % 2 = 0 := by
    rw [Format.mantissaBits, Nat.add_comm, Nat.pow_succ, Nat.mul_mod_left]
  simp only [shiftToTargetExponent, htarget, shiftToExponent, show (t + 1 - t).toNat = 1 by omega]
  change (ExtendedMantissa.shiftRightOne ⟨2 ^ F.mantissaBits, false, false⟩, t + 1) = _
  simp [ExtendedMantissa.shiftRightOne, hhalf, hodd]

/-! ## The bridge -/

theorem hidden_cast (f : BinaryFormat) : (f.hidden : ℚ) = 2 ^ (f.fracBits : Int) := by
  rw [hidden_eq, zpow_natCast]
  push_cast
  rfl

theorem div_two_zpow_bounds {x : ℚ} {a : Int} (h : (2 : ℚ) ^ a ≤ x ∧ x < 2 ^ (a + 1)) (t : Int) :
    (2 : ℚ) ^ (a - t) ≤ x / 2 ^ t ∧ x / 2 ^ t < 2 ^ (a - t + 1) := by
  have hpos : (0 : ℚ) < 2 ^ t := zpow_pos (by norm_num) t
  rw [show a - t + 1 = a + 1 - t by ring, zpow_sub₀ two_ne_zero, zpow_sub₀ two_ne_zero]
  exact ⟨div_le_div_of_nonneg_right h.1 hpos.le, div_lt_div_of_pos_right h.2 hpos⟩

theorem NearestEven.binade_range (f : BinaryFormat) {a t : Int} {x : ℚ} {n : Nat}
    (hx : (2 : ℚ) ^ a ≤ x ∧ x < 2 ^ (a + 1)) (ht : t = max (a - f.fracBits) f.minExp)
    (hn : NearestEven n (x / 2 ^ t)) : n ≤ 2 * f.hidden ∧ (f.hidden ≤ n ∨ t = f.minExp) := by
  have hy := div_two_zpow_bounds hx t
  constructor
  · refine hn.le_of_lt (lt_of_lt_of_le hy.2 ?_)
    push_cast
    rw [hidden_cast, ← zpow_one_add₀ two_ne_zero]
    exact zpow_le_zpow_right₀ (by norm_num) (by omega)
  · rcases max_choice (a - f.fracBits) f.minExp with h | h
    · refine Or.inl (hn.le_of_le (le_trans (le_of_eq ?_) hy.1))
      rw [hidden_cast, ht, h]
      congr 1
      ring
    · exact Or.inr (ht.trans h)

theorem pack_roundWithAccuracy_of_shift {F : Format} {f : BinaryFormat} (hf : FormatMatch F f)
    (s : Sign) {M : Nat} {e t : Int} {acc : Accuracy} {em : ExtendedMantissa} {num den : Nat}
    (hs : shiftToTargetExponent F M e acc = (em, t)) (hnum : 0 < num)
    (hq : max (f.binadeExp num den) f.minExp = t)
    (hround : scaledRound num den t = em.roundedMantissa)
    (hle : em.roundedMantissa ≤ 2 * f.hidden)
    (hnorm : f.hidden ≤ em.roundedMantissa ∨ t = f.minExp) (hmin' : f.minExp ≤ t) :
    (UnpackedFloat.pack F (roundWithAccuracy F s M e acc)).toNat =
      f.roundRat (signNeg s) num den := by
  have hmin : F.minExponent ≤ t := by
    rw [hf.minExponent_eq]
    exact hmin'
  have hwidth : 2 ^ F.mantissaBits = 2 * f.hidden := by
    rw [hf.mantissaBits_eq, Nat.pow_succ, hidden_eq, Nat.mul_comm]
  unfold roundWithAccuracy roundRat
  rw [hs, if_neg (Nat.pos_iff_ne_zero.mp hnum)]
  dsimp only
  rw [hq, hround]
  generalize em.roundedMantissa = r₀ at hle hnorm
  rcases lt_or_eq_of_le hle with hlt | hcarry
  · rw [shiftToTargetExponent_of_fits F (hwidth ▸ hlt) hmin]
    simp only [hlt.ne, decide_false, Bool.false_eq_true, if_false]
    by_cases hz : r₀ = 0
    · have hte : t = f.minExp := hnorm.resolve_left (by have := hidden_pos f; omega)
      rw [dif_pos hz, pack_zero_toNat hf, hz, hte, if_neg (not_lt.mpr hf.minExp_le_maxExp)]
    · rw [dif_neg hz, pack_finite_toNat hf s (Nat.pos_of_ne_zero hz) hlt hmin' hnorm]
  · rw [hcarry, ← hwidth, shiftToTargetExponent_of_carry F hmin]
    have hm : 2 ^ F.mantissaBitsWithoutImplicit = f.hidden := by rw [hf.frac, hidden_eq]
    simp only [hwidth, decide_true, if_true]
    rw [dif_neg (by rw [hm]; exact (hidden_pos f).ne'),
      pack_finite_toNat hf s _ (by rw [hm]; have := hidden_pos f; omega) (by omega) (Or.inl hm.ge), hm]

/-- The model's rounding of `(M + r/D)·2^e`, with the significand at or below the target
exponent, packs to the bits `roundRat` gives for the same value: the nearest value of the
format, ties to even, with overflow to infinity and underflow to a signed zero. -/
theorem pack_roundWithAccuracy {F : Format} {f : BinaryFormat} (hf : FormatMatch F f) (s : Sign)
    {M r D : Nat} {e : Int} (hM : 0 < M) (hD : 0 < D) (hr : r < D)
    (he : e ≤ F.targetExponent (totalExponent M e)) {num den : Nat} (hden : 0 < den)
    (hv : (num : ℚ) / den = (M + r / D) * 2 ^ e) :
    (UnpackedFloat.pack F (roundWithAccuracy F s M e (accuracyOfFraction r D))).toNat =
      f.roundRat (signNeg s) num den := by
  have htm := targetExponent_of_match hf M e
  obtain ⟨t, ht⟩ : ∃ t, F.targetExponent (totalExponent M e) = t := ⟨_, rfl⟩
  rw [ht] at he htm
  have hval := value_bounds hM hD hr e
  have hnum : 0 < num := by
    have hq : (0 : ℚ) < num / den := by
      rw [hv]
      exact lt_of_lt_of_le (zpow_pos (by norm_num) _) hval.1
    exact_mod_cast (div_pos_iff_of_pos_right (by exact_mod_cast hden)).mp hq
  have hq : max (f.binadeExp num den) f.minExp = t := by
    obtain ⟨hB, hB'⟩ := binadeExp_bounds_of f hnum hden
    rw [hv] at hB hB'
    have h₁ := two_zpow_lt_two_zpow (lt_of_le_of_lt hB hval.2)
    have h₂ := two_zpow_lt_two_zpow (lt_of_le_of_lt hval.1 hB')
    rw [htm]
    congr 1
    omega
  obtain ⟨hshift, hnear⟩ := shiftToTargetExponent_nearest F M hD hr (ht ▸ he)
  rcases hs : shiftToTargetExponent F M e (accuracyOfFraction r D) with ⟨em₁, e₁⟩
  rw [hs, ht] at hshift hnear
  dsimp only at hshift hnear
  subst e₁
  have hround : scaledRound num den t = em₁.roundedMantissa := by
    obtain ⟨h₁, h₂, h₃⟩ := hnear
    rw [← hv] at h₁ h₂ h₃
    exact scaledRound_eq hden h₁ h₂ h₃
  obtain ⟨hle, hnorm⟩ := NearestEven.binade_range f hval htm hnear
  exact pack_roundWithAccuracy_of_shift hf s hs hnum hq hround hle hnorm (htm ▸ le_max_right _ _)

theorem pack_round {F : Format} {f : BinaryFormat} (hf : FormatMatch F f) (s : Sign) {M : Nat}
    (hM : 0 < M) (e : Int) {num den : Nat} (hden : 0 < den) (hv : (num : ℚ) / den = M * 2 ^ e) :
    (UnpackedFloat.pack F (UnpackedFloat.round F s M e)).toNat = f.roundRat (signNeg s) num den := by
  set k := (e - F.targetExponent (totalExponent M e)).toNat with hk
  have htot : totalExponent (M * 2 ^ k) (e - k) = totalExponent M e := totalExponent_mul_two_pow hM k e
  have hexact : accuracyOfFraction 0 1 = .exact := rfl
  unfold UnpackedFloat.round
  simp only [decreaseExponent, Nat.shiftLeft_eq]
  rw [← hk, ← hexact]
  refine pack_roundWithAccuracy hf s (Nat.mul_pos hM (Nat.two_pow_pos k)) one_pos one_pos
    (by rw [htot]; omega) hden ?_
  rw [hv]
  push_cast
  rw [div_one, add_zero, mul_assoc, ← zpow_natCast, ← zpow_add₀ two_ne_zero]
  congr 2
  ring

theorem pack_normalize {F : Format} {f : BinaryFormat} (hf : FormatMatch F f) {Z : Int} (hZ : Z ≠ 0)
    (e : Int) (zs : Sign) {num den : Nat} (hden : 0 < den)
    (hv : (num : ℚ) / den = Z.natAbs * 2 ^ e) :
    (UnpackedFloat.pack F (UnpackedFloat.normalize F Z e zs)).toNat =
      f.roundRat (decide (Z < 0)) num den := by
  unfold UnpackedFloat.normalize
  rcases lt_or_gt_of_ne hZ with hneg | hpos
  · rw [Int.compare_eq_lt.mpr hneg]
    dsimp only
    rw [pack_round hf .negative (by omega) e hden (by rw [hv]; congr 2; omega),
      decide_eq_true hneg]
    rfl
  · rw [Int.compare_eq_gt.mpr hpos]
    dsimp only
    rw [pack_round hf .positive (by omega) e hden (by rw [hv]; congr 2; omega),
      decide_eq_false (by omega)]
    rfl

/-! ## Division -/

theorem two_pow_le_div {m₁ m₂ : Nat} (h₁ : 0 < m₁) (h₂ : 0 < m₂) {k : Nat}
    (hk : m₂.log2 < m₁.log2 + k) :
    2 ^ (m₁.log2 + k - m₂.log2 - 1) ≤ m₁ * 2 ^ k / m₂ := by
  have hlo : 2 ^ m₁.log2 ≤ m₁ := Nat.log2_self_le (Nat.ne_of_gt h₁)
  have hhi : m₂ < 2 ^ (m₂.log2 + 1) := Nat.lt_log2_self
  rw [Nat.le_div_iff_mul_le h₂]
  calc 2 ^ (m₁.log2 + k - m₂.log2 - 1) * m₂
      ≤ 2 ^ (m₁.log2 + k - m₂.log2 - 1) * 2 ^ (m₂.log2 + 1) := Nat.mul_le_mul_left _ hhi.le
    _ = 2 ^ (m₁.log2 + k) := by rw [← Nat.pow_add]; congr 1; omega
    _ = 2 ^ m₁.log2 * 2 ^ k := Nat.pow_add _ _ _
    _ ≤ m₁ * 2 ^ k := Nat.mul_le_mul_right _ hlo

theorem div_finite_eq (F : Format) (s₁ s₂ : Sign) {m₁ m₂ : Nat} {e₁ e₂ : Int} (h₁ : 0 < m₁)
    (h₂ : 0 < m₂) :
    UnpackedFloat.div F (.finite s₁ m₁ e₁ h₁) (.finite s₂ m₂ e₂ h₂) =
      let te := min (e₁ - e₂) (F.targetExponent (totalExponent m₁ e₁ - totalExponent m₂ e₂))
      let k := (e₁ - e₂ - te).toNat
      roundWithAccuracy F (s₁ / s₂) (m₁ * 2 ^ k / m₂) te (accuracyOfFraction (m₁ * 2 ^ k % m₂) m₂) := by
  simp only [UnpackedFloat.div, divCore, Nat.shiftLeft_eq]

theorem divCore_value {m₁ m₂ : Nat} {e₁ e₂ te : Int} (h₂ : 0 < m₂) (hte : te ≤ e₁ - e₂) :
    (((m₁ * 2 ^ (e₁ - e₂ - te).toNat / m₂ : Nat) : ℚ) +
        ((m₁ * 2 ^ (e₁ - e₂ - te).toNat % m₂ : Nat) : ℚ) / m₂) * 2 ^ te =
      m₁ * 2 ^ e₁ / (m₂ * 2 ^ e₂) := by
  set k := (e₁ - e₂ - te).toNat with hk
  have hk' : (k : Int) = e₁ - e₂ - te := Int.toNat_of_nonneg (by omega)
  have hm₂ : (m₂ : ℚ) ≠ 0 := by exact_mod_cast h₂.ne'
  have hsplit : ((m₁ * 2 ^ k / m₂ : Nat) : ℚ) + ((m₁ * 2 ^ k % m₂ : Nat) : ℚ) / m₂ =
      (m₁ * 2 ^ k : Nat) / m₂ := by
    have hd := Nat.div_add_mod (m₁ * 2 ^ k) m₂
    field_simp
    exact_mod_cast (by rw [Nat.mul_comm (m₁ * 2 ^ k / m₂)]; exact hd)
  rw [hsplit]
  have h2 : (2 : ℚ) ^ e₁ = 2 ^ e₂ * 2 ^ (k : Int) * 2 ^ te := by
    rw [← zpow_add₀ two_ne_zero, ← zpow_add₀ two_ne_zero, hk']
    congr 1
    ring
  rw [h2, zpow_natCast]
  push_cast
  field_simp

theorem pack_div_finite {F : Format} {f : BinaryFormat} (hf : FormatMatch F f) (s₁ s₂ : Sign)
    {m₁ m₂ : Nat} {e₁ e₂ : Int} (h₁ : 0 < m₁) (h₂ : 0 < m₂)
    (hnormal : F.minExponent ≤ totalExponent m₁ e₁ - totalExponent m₂ e₂ - F.mantissaBits)
    {num den : Nat} (hden : 0 < den) (hv : (num : ℚ) / den = m₁ * 2 ^ e₁ / (m₂ * 2 ^ e₂)) :
    (UnpackedFloat.pack F (UnpackedFloat.div F (.finite s₁ m₁ e₁ h₁) (.finite s₂ m₂ e₂ h₂))).toNat =
      f.roundRat (signNeg (s₁ / s₂)) num den := by
  set T := totalExponent m₁ e₁ - totalExponent m₂ e₂ with hT
  have htarget : F.targetExponent T = T - F.mantissaBits := max_eq_left hnormal
  set te := min (e₁ - e₂) (F.targetExponent T) with hte
  set k := (e₁ - e₂ - te).toNat with hk
  have hmb : 1 ≤ F.mantissaBits := by unfold Format.mantissaBits; omega
  have hbits : m₂.log2 < m₁.log2 + k := by
    simp only [hT, totalExponent] at htarget hte
    omega
  have hq := two_pow_le_div h₁ h₂ hbits
  have hM : 0 < m₁ * 2 ^ k / m₂ := lt_of_lt_of_le (Nat.two_pow_pos _) hq
  have hlog : m₁.log2 + k - m₂.log2 - 1 ≤ (m₁ * 2 ^ k / m₂).log2 :=
    (Nat.le_log2 (Nat.ne_of_gt hM)).2 hq
  have he : te ≤ F.targetExponent (totalExponent (m₁ * 2 ^ k / m₂) te) := by
    unfold Format.targetExponent totalExponent
    simp only [hT, totalExponent] at htarget hte
    omega
  rw [div_finite_eq]
  refine pack_roundWithAccuracy hf _ hM h₂ (Nat.mod_lt _ h₂) he hden ?_
  rw [divCore_value h₂ (min_le_left _ _), hv]

/-- Rounding a value below one last place at the lowest exponent, handed over as a zero
significand and a remainder, packs to `roundRat`'s bits: zero or the least subnormal. -/
theorem pack_roundWithAccuracy_zero {F : Format} {f : BinaryFormat} (hf : FormatMatch F f)
    (s : Sign) {r D : Nat} {e : Int} (hr0 : 0 < r) (hr : r < D) (he : e ≤ F.minExponent)
    {num den : Nat} (hden : 0 < den) (hv : (num : ℚ) / den = r / D * 2 ^ e) :
    (UnpackedFloat.pack F (roundWithAccuracy F s 0 e (accuracyOfFraction r D))).toNat =
      f.roundRat (signNeg s) num den := by
  have hD : 0 < D := by omega
  have hfrac : 1 ≤ f.fracBits := by have := F.hm; rw [hf.frac] at this; omega
  rw [hf.minExponent_eq] at he
  have ht : F.targetExponent (totalExponent 0 e) = f.minExp := by
    rw [targetExponent_of_match hf]
    simp only [Nat.log2_zero, Nat.cast_zero, zero_add]
    omega
  have hD' : (0 : ℚ) < D := by exact_mod_cast hD
  have hfr : (0 : ℚ) < r / D := div_pos (by exact_mod_cast hr0) hD'
  have hfr' : (r : ℚ) / D < 1 := by rw [div_lt_one hD']; exact_mod_cast hr
  have hpos : (0 : ℚ) < 2 ^ e := zpow_pos (by norm_num) e
  have hvlt : (r : ℚ) / D * 2 ^ e < 2 ^ e := mul_lt_of_lt_one_left hpos hfr'
  have hnum : 0 < num := by
    have hq : (0 : ℚ) < num / den := by
      rw [hv]
      exact mul_pos hfr hpos
    exact_mod_cast (div_pos_iff_of_pos_right (by exact_mod_cast hden)).mp hq
  have hq : max (f.binadeExp num den) f.minExp = f.minExp := by
    obtain ⟨hB, -⟩ := binadeExp_bounds_of f hnum hden
    rw [hv] at hB
    have := two_zpow_lt_two_zpow (lt_of_le_of_lt hB hvlt)
    omega
  obtain ⟨-, hnear⟩ := shiftToTargetExponent_nearest F 0 hD hr (by rw [ht]; exact he)
  rcases hs : shiftToTargetExponent F 0 e (accuracyOfFraction r D) with ⟨em, t⟩
  have hst : t = f.minExp := by
    have h := congrArg Prod.snd hs
    simp only [shiftToTargetExponent, shiftToExponent] at h
    rw [targetExponent_of_match hf] at h
    simp only [Nat.log2_zero, Nat.cast_zero, zero_add] at h
    omega
  rw [hs, ht] at hnear
  subst hst
  rw [Nat.cast_zero, zero_add, ← hv] at hnear
  have hround : scaledRound num den f.minExp = em.roundedMantissa := by
    obtain ⟨h₁, h₂, h₃⟩ := hnear
    exact scaledRound_eq hden h₁ h₂ h₃
  have hle : em.roundedMantissa ≤ 1 := hnear.le_of_lt (by
    rw [Nat.cast_one, div_lt_one (zpow_pos (by norm_num) _), hv]
    exact lt_of_lt_of_le hvlt (zpow_le_zpow_right₀ (by norm_num) he))
  exact pack_roundWithAccuracy_of_shift hf s hs hnum hq hround
    (by have := hidden_pos f; omega) (.inr rfl) le_rfl

/-- The model's division of two nonzero finite values packs to `roundRat`'s bits for the
exact quotient, subnormal and vanishing quotients included. -/
theorem pack_div {F : Format} {f : BinaryFormat} (hf : FormatMatch F f) (s₁ s₂ : Sign)
    {m₁ m₂ : Nat} {e₁ e₂ : Int} (h₁ : 0 < m₁) (h₂ : 0 < m₂)
    {num den : Nat} (hden : 0 < den) (hv : (num : ℚ) / den = m₁ * 2 ^ e₁ / (m₂ * 2 ^ e₂)) :
    (UnpackedFloat.pack F (UnpackedFloat.div F (.finite s₁ m₁ e₁ h₁) (.finite s₂ m₂ e₂ h₂))).toNat =
      f.roundRat (signNeg (s₁ / s₂)) num den := by
  by_cases hnormal : F.minExponent ≤ totalExponent m₁ e₁ - totalExponent m₂ e₂ - F.mantissaBits
  · exact pack_div_finite hf s₁ s₂ h₁ h₂ hnormal hden hv
  have htarget : F.targetExponent (totalExponent m₁ e₁ - totalExponent m₂ e₂) = F.minExponent :=
    max_eq_right (by omega)
  set te := min (e₁ - e₂) (F.targetExponent (totalExponent m₁ e₁ - totalExponent m₂ e₂)) with hte
  have hlow : te ≤ F.minExponent := by rw [hte, htarget]; exact min_le_right _ _
  have hval := @divCore_value m₁ m₂ e₁ e₂ _ h₂ (min_le_left (e₁ - e₂)
    (F.targetExponent (totalExponent m₁ e₁ - totalExponent m₂ e₂)))
  rw [div_finite_eq]
  dsimp only
  rw [← hte] at hval ⊢
  rcases Nat.eq_zero_or_pos (m₁ * 2 ^ (e₁ - e₂ - te).toNat / m₂) with hM | hM
  · rw [hM, Nat.cast_zero, zero_add] at hval
    rw [hM]
    have hr0 : 0 < m₁ * 2 ^ (e₁ - e₂ - te).toNat % m₂ := by
      rw [Nat.pos_iff_ne_zero]
      intro hr
      have hexact : (0 : ℚ) < m₁ * 2 ^ e₁ / (m₂ * 2 ^ e₂) := by positivity
      rw [← hval, hr] at hexact
      simp at hexact
    exact pack_roundWithAccuracy_zero hf _ hr0 (Nat.mod_lt _ h₂) hlow hden (by rw [hv, hval])
  · have he : te ≤ F.targetExponent (totalExponent (m₁ * 2 ^ (e₁ - e₂ - te).toNat / m₂) te) :=
      le_trans hlow (le_max_right _ _)
    exact pack_roundWithAccuracy hf _ hM h₂ (Nat.mod_lt _ h₂) he hden (by rw [hv, hval])

end PointerAccel.Binary
