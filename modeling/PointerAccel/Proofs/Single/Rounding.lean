import Mathlib
import PointerAccel.Proofs.Single.Exact

/-!
# Rounding a single to an integer

`roundAway` rounds a finite single to the nearest integer, ties away from zero: a single
with a nonnegative exponent is already an integer, and otherwise the integer
`k = ⌊(2m + d) / 2d⌋`, with `d = 2^-e`, is converted back to a single. The remainder
`x - roundAway x` is then always a single itself, so the subtraction is exact.

* `roundRat_small_int`: the engine's own conversion keeps every integer below `2^24`;
* `roundAway_split`: a finite single is the integer part of its rounding plus a remainder
  of at most one half, both exact, and the remainder is a finite single;
* `finite_of_between`: the comparisons with `-2^31` and `2^31` let through only finite
  singles, with values in that range.
-/

namespace PointerAccel.Binary

open Float.Model Float.Model.UnpackedFloat

theorem decode_pack_single (neg : Bool) {m : Nat} {q : Int} (hc : Canonical m q) :
    BinaryFormat.single.decode (BinaryFormat.single.pack neg m q) = .finite neg m q := by
  obtain ⟨hm, hq, hq', hn⟩ := hc
  have hh : BinaryFormat.single.hidden = 8388608 := rfl
  have hx : Nat.pow 2 BinaryFormat.single.expBits = 256 := rfl
  have ht : BinaryFormat.single.topField = 255 := rfl
  have hsb : BinaryFormat.single.signBit = 2147483648 := rfl
  have hmin : BinaryFormat.single.minExp = -149 := by decide
  have hbias : BinaryFormat.single.bias = 127 := rfl
  have hfb : BinaryFormat.single.fracBits = 23 := rfl
  unfold BinaryFormat.decode BinaryFormat.pack
  dsimp only
  rw [hh, hx, ht, hsb, hmin, hbias, hfb]
  generalize hb : (if neg = true then 2147483648 else 0) + (q - -149).toNat * 8388608 + m = b
  have hs : decide (2147483648 ≤ b % (2 * 2147483648)) = neg := by
    cases neg <;> simp only [Bool.false_eq_true, ↓reduceIte, zero_add, decide_eq_false_iff_not,
      decide_eq_true_eq] at hb ⊢ <;> omega
  rw [hs]
  by_cases hnorm : 2 ^ 23 ≤ m
  · have hf : b / 8388608 % 256 = (q + 150).toNat := by
      cases neg <;> simp only [Bool.false_eq_true, ↓reduceIte, zero_add] at hb <;> omega
    have hr : b % 8388608 = m - 8388608 := by
      cases neg <;> simp only [Bool.false_eq_true, ↓reduceIte, zero_add] at hb <;> omega
    rw [hf, if_neg (by omega), if_neg (by omega), hr, show m - 8388608 + 8388608 = m by omega,
      show (((q + 150).toNat : Nat) : Int) - ((127 : Nat) : Int) - ((23 : Nat) : Int) = q by omega]
  · have hq149 : q = -149 := by omega
    have hf : b / 8388608 % 256 = 0 := by
      cases neg <;> simp only [Bool.false_eq_true, ↓reduceIte, zero_add] at hb <;> omega
    have hr : b % 8388608 = m := by
      cases neg <;> simp only [Bool.false_eq_true, ↓reduceIte, zero_add] at hb <;> omega
    rw [hf, if_neg (by omega), if_pos rfl, hr, hq149]

theorem divRoundEven_one (n : Nat) : BinaryFormat.divRoundEven n 1 = n := by
  simp [BinaryFormat.divRoundEven, Nat.mod_one]

theorem small_int_significand {k : Nat} (hk : 0 < k) (hk' : k < 2 ^ 24) :
    k.log2 ≤ 23 ∧ 2 ^ 23 ≤ k * 2 ^ (23 - k.log2) ∧ k * 2 ^ (23 - k.log2) < 2 ^ 24 := by
  have hlo := Nat.log2_self_le (Nat.ne_of_gt hk)
  have hhi := @Nat.lt_log2_self k
  have hlog : k.log2 < 24 := (Nat.log2_lt (Nat.ne_of_gt hk)).2 hk'
  refine ⟨by omega, ?_, ?_⟩
  · calc 2 ^ 23 = 2 ^ k.log2 * 2 ^ (23 - k.log2) := by rw [← Nat.pow_add]; congr 1; omega
      _ ≤ k * 2 ^ (23 - k.log2) := Nat.mul_le_mul_right _ hlo
  · calc k * 2 ^ (23 - k.log2) < 2 ^ (k.log2 + 1) * 2 ^ (23 - k.log2) :=
          Nat.mul_lt_mul_of_pos_right hhi (Nat.two_pow_pos _)
      _ = 2 ^ 24 := by rw [← Nat.pow_add]; congr 1; omega

/-- An integer below `2^24` rounds to itself: its bits are its significand shifted up to 24
bits, at the matching exponent. -/
theorem roundRat_small_int (neg : Bool) {k : Nat} (hk : 0 < k) (hk' : k < 2 ^ 24) :
    BinaryFormat.single.roundRat neg k 1 =
      BinaryFormat.single.pack neg (k * 2 ^ (23 - k.log2)) ((k.log2 : Int) - 23) := by
  obtain ⟨hlog, hlo, hhi⟩ := small_int_significand hk hk'
  have hq0 : (k.log2 : Int) - (Nat.log2 1 : Int) - (BinaryFormat.single.fracBits : Int) =
      (k.log2 : Int) - 23 := by
    rw [show Nat.log2 1 = 0 from @Nat.log2_two_pow 0]
    rfl
  have hscaled : BinaryFormat.scaledRound k 1 ((k.log2 : Int) - 23) = k * 2 ^ (23 - k.log2) := by
    unfold BinaryFormat.scaledRound
    by_cases h0 : (0 : Int) ≤ (k.log2 : Int) - 23
    · have h23 : k.log2 = 23 := by omega
      rw [if_pos h0, show ((k.log2 : Int) - 23).toNat = 0 by omega, h23]
      simp [divRoundEven_one, Nat.pow_eq]
    · rw [if_neg h0, show (-((k.log2 : Int) - 23)).toNat = 23 - k.log2 by omega, Nat.pow_eq,
        divRoundEven_one]
  have hfloor :
      ¬ BinaryFormat.scaledFloor k 1 ((k.log2 : Int) - 23) < BinaryFormat.single.hidden := by
    have hh : BinaryFormat.single.hidden = 2 ^ 23 := rfl
    unfold BinaryFormat.scaledFloor
    by_cases h0 : (0 : Int) ≤ (k.log2 : Int) - 23
    · have h23 : k.log2 = 23 := by omega
      rw [if_pos h0, show ((k.log2 : Int) - 23).toNat = 0 by omega, hh]
      rw [h23] at hlo
      simpa [Nat.pow_eq] using hlo
    · rw [if_neg h0, show (-((k.log2 : Int) - 23)).toNat = 23 - k.log2 by omega, Nat.pow_eq, hh,
        Nat.div_one]
      omega
  have hbin : BinaryFormat.binadeExp BinaryFormat.single k 1 = (k.log2 : Int) - 23 := by
    unfold BinaryFormat.binadeExp
    dsimp only
    rw [hq0, if_neg hfloor]
  have hmax : max ((k.log2 : Int) - 23) BinaryFormat.single.minExp = (k.log2 : Int) - 23 := by
    have hmin : BinaryFormat.single.minExp = -149 := by decide
    rw [hmin]
    omega
  unfold BinaryFormat.roundRat
  rw [if_neg (Nat.ne_of_gt hk)]
  dsimp only
  rw [hbin, hmax, hscaled]
  have hcarry : decide (k * 2 ^ (23 - k.log2) = 2 * BinaryFormat.single.hidden) = false := by
    have hh : BinaryFormat.single.hidden = 2 ^ 23 := rfl
    rw [hh]
    simp only [decide_eq_false_iff_not]
    omega
  have hmaxExp : ¬ BinaryFormat.single.maxExp < (k.log2 : Int) - 23 := by
    have : BinaryFormat.single.maxExp = 104 := by decide
    rw [this]
    omega
  simp only [hcarry, Bool.false_eq_true, ↓reduceIte, hmaxExp]

theorem pack_lt_single (neg : Bool) {m : Nat} {q : Int} (hc : Canonical m q) :
    BinaryFormat.single.pack neg m q < 2 ^ 32 := by
  obtain ⟨hm, hq, hq', -⟩ := hc
  have hsb : BinaryFormat.single.signBit = 2147483648 := rfl
  have hmin : BinaryFormat.single.minExp = -149 := by decide
  have hh : BinaryFormat.single.hidden = 8388608 := rfl
  unfold BinaryFormat.pack
  rw [hsb, hmin, hh]
  cases neg <;> simp only [Bool.false_eq_true, ↓reduceIte] <;> omega

theorem decodeSingle_pack (neg : Bool) {m : Nat} {q : Int} (hc : Canonical m q) :
    decodeSingle (singleOfBits (BinaryFormat.single.pack neg m q)) = .finite neg m q := by
  rw [decodeSingle_singleOfBits (pack_lt_single neg hc), decode_pack_single neg hc]

theorem roundAway_of_nonneg {x : Float32} {neg : Bool} {m : Nat} {e : Int}
    (hx : decodeSingle x = .finite neg m e) (he : 0 ≤ e) : roundAway x = x := by
  unfold roundAway
  rw [hx]
  simp only [he, ↓reduceIte]

theorem roundAway_of_neg {x : Float32} {neg : Bool} {m : Nat} {e : Int}
    (hx : decodeSingle x = .finite neg m e) (he : e < 0) :
    roundAway x = singleOfBits (BinaryFormat.single.roundRat neg
      ((2 * m + 2 ^ (-e).toNat) / (2 * 2 ^ (-e).toNat)) 1) := by
  unfold roundAway
  rw [hx]
  simp only [show ¬ (0 ≤ e) by omega, ↓reduceIte, Nat.pow_eq]

theorem half_away_bounds (m : Nat) {d : Nat} (hd : 0 < d) :
    2 * ((2 * m + d) / (2 * d) * d) ≤ 2 * m + d ∧
      2 * m + d < 2 * ((2 * m + d) / (2 * d) * d) + 2 * d := by
  have h1 := Nat.div_mul_le_self (2 * m + d) (2 * d)
  have h2 := @Nat.lt_div_mul_add (2 * m + d) (2 * d) (by omega)
  constructor
  · calc 2 * ((2 * m + d) / (2 * d) * d) = (2 * m + d) / (2 * d) * (2 * d) := by ring
      _ ≤ 2 * m + d := h1
  · calc 2 * m + d < (2 * m + d) / (2 * d) * (2 * d) + 2 * d := h2
      _ = 2 * ((2 * m + d) / (2 * d) * d) + 2 * d := by ring

theorem decodeSingle_roundRat_small_int (neg : Bool) {k : Nat} (hk : 0 < k) (hk' : k < 2 ^ 24) :
    decodeSingle (singleOfBits (BinaryFormat.single.roundRat neg k 1)) =
      .finite neg (k * 2 ^ (23 - k.log2)) ((k.log2 : Int) - 23) := by
  obtain ⟨hlog, hlo, hhi⟩ := small_int_significand hk hk'
  rw [roundRat_small_int neg hk hk', decodeSingle_pack neg ⟨hhi, by omega, by omega, .inl hlo⟩]

theorem decodeSingle_roundRat_zero (neg : Bool) :
    decodeSingle (singleOfBits (BinaryFormat.single.roundRat neg 0 1)) = .finite neg 0 (-149) := by
  have hmin : BinaryFormat.single.minExp = -149 := by decide
  unfold BinaryFormat.roundRat
  rw [if_pos rfl, hmin, decodeSingle_pack neg ⟨by norm_num, le_refl _, by norm_num, .inr rfl⟩]

theorem truncInt_small_int (neg : Bool) {k : Nat} (hk : 0 < k) (hk' : k < 2 ^ 24) :
    (Decoded.finite neg (k * 2 ^ (23 - k.log2)) ((k.log2 : Int) - 23)).truncInt =
      if neg then -(k : Int) else k := by
  obtain ⟨hlog, -, -⟩ := small_int_significand hk hk'
  have hmag : (if 0 ≤ (k.log2 : Int) - 23 then
      k * 2 ^ (23 - k.log2) * Nat.pow 2 ((k.log2 : Int) - 23).toNat
      else k * 2 ^ (23 - k.log2) / Nat.pow 2 (-((k.log2 : Int) - 23)).toNat) = k := by
    by_cases h0 : (0 : Int) ≤ (k.log2 : Int) - 23
    · rw [if_pos h0, show 23 - k.log2 = 0 by omega, show ((k.log2 : Int) - 23).toNat = 0 by omega]
      simp [Nat.pow_eq]
    · rw [if_neg h0, show (-((k.log2 : Int) - 23)).toNat = 23 - k.log2 by omega, Nat.pow_eq,
        Nat.mul_div_cancel _ (Nat.two_pow_pos _)]
  simp only [Decoded.truncInt, hmag]

theorem toRat_small_int (neg : Bool) {k : Nat} (hk : 0 < k) (hk' : k < 2 ^ 24) :
    (Decoded.finite neg (k * 2 ^ (23 - k.log2)) ((k.log2 : Int) - 23)).toRat =
      if neg then -(k : ℚ) else k := by
  obtain ⟨hlog, -, -⟩ := small_int_significand hk hk'
  have hv : ((k * 2 ^ (23 - k.log2) : Nat) : ℚ) * 2 ^ ((k.log2 : Int) - 23) = k := by
    rw [cast_mul_two_pow_zpow, show (k.log2 : Int) - 23 + ((23 - k.log2 : Nat) : Int) = 0 by omega,
      zpow_zero, mul_one]
  cases neg
  · simpa [Decoded.toRat] using hv
  · simp only [Decoded.toRat, ↓reduceIte, neg_mul]
    rw [← hv]

theorem two_zpow_mul_two_pow_neg {e : Int} (he : e < 0) :
    (2 : ℚ) ^ e * ((2 ^ (-e).toNat : Nat) : ℚ) = 1 := by
  push_cast
  rw [← zpow_natCast, ← zpow_add₀ two_ne_zero, show e + ((-e).toNat : Int) = 0 by omega, zpow_zero]

theorem roundAway_split_of_nonneg {x : Float32} {neg : Bool} {m : Nat} {e : Int}
    (hx : decodeSingle x = .finite neg m e) (he : 0 ≤ e) :
    ((decodeSingle (roundAway x)).truncInt : ℚ) + singleRat (x - roundAway x) = singleRat x ∧
      |singleRat (x - roundAway x)| ≤ 1 / 2 ∧
      ((decodeSingle (roundAway x)).truncInt : ℚ) = singleRat (roundAway x) ∧
      (x - roundAway x).isFinite = true := by
  have h2 : (2 : ℚ) ^ e = ((Nat.pow 2 e.toNat : Nat) : ℚ) := by
    rw [Nat.pow_eq]
    push_cast
    rw [← zpow_natCast]
    congr 1
    omega
  have htrunc : ((decodeSingle x).truncInt : ℚ) = singleRat x := by
    rw [singleRat, hx, toRat_finite]
    cases neg <;> simp [Decoded.truncInt, he, h2]
  obtain ⟨hself, hfin⟩ := singleRat_sub_self hx
  rw [roundAway_of_nonneg hx he, hself]
  exact ⟨by rw [add_zero, htrunc], by norm_num, htrunc, hfin⟩

theorem half_away_le {m d k : Nat} (hm : m < 2 ^ 24) (hd : 2 ≤ d) (hlo : 2 * (k * d) ≤ 2 * m + d) :
    k ≤ 2 ^ 23 := by
  by_contra hk
  have : (2 ^ 23 + 1) * d ≤ k * d := Nat.mul_le_mul_right _ (by omega)
  omega

theorem remainder_bounds {m d P : Nat} (hm : m < 2 ^ 24) (hlo : 2 * P ≤ 2 * m + d)
    (hhi : 2 * m + d < 2 * P + 2 * d) (hP : d ≤ P) :
    ((m : Int) - P).natAbs < 2 ^ 24 ∧ 2 * ((m : Int) - P).natAbs ≤ d := by
  omega

theorem abs_mul_zpow_le_half {z : Int} {d : Nat} {e : Int} (hinv : (2 : ℚ) ^ e * d = 1)
    (hz : 2 * z.natAbs ≤ d) : |(z : ℚ) * 2 ^ e| ≤ 1 / 2 := by
  have hpos : (0 : ℚ) < 2 ^ e := zpow_pos (by norm_num) e
  have hzd : 2 * |(z : ℚ)| ≤ d := by
    rw [← Int.cast_abs, ← Int.natCast_natAbs]
    exact_mod_cast hz
  calc |(z : ℚ) * 2 ^ e| = |(z : ℚ)| * 2 ^ e := by rw [abs_mul, abs_of_pos hpos]
    _ ≤ (d / 2 : ℚ) * 2 ^ e := by gcongr; linarith
    _ = 1 / 2 := by rw [div_mul_eq_mul_div, mul_comm, hinv]

theorem roundAway_split_of_neg {x : Float32} {neg : Bool} {m : Nat} {e : Int}
    (hx : decodeSingle x = .finite neg m e) (he : e < 0) :
    ((decodeSingle (roundAway x)).truncInt : ℚ) + singleRat (x - roundAway x) = singleRat x ∧
      |singleRat (x - roundAway x)| ≤ 1 / 2 ∧
      ((decodeSingle (roundAway x)).truncInt : ℚ) = singleRat (roundAway x) ∧
      (x - roundAway x).isFinite = true := by
  have hc := canonical_of_decode hx
  have hinv := two_zpow_mul_two_pow_neg he
  have hd : 2 ≤ 2 ^ (-e).toNat := by
    calc 2 = 2 ^ 1 := rfl
      _ ≤ 2 ^ (-e).toNat := Nat.pow_le_pow_right (by norm_num) (by omega)
  obtain ⟨hlo, hhi⟩ := half_away_bounds m (show 0 < 2 ^ (-e).toNat by omega)
  have hx' : singleRat x = ((if neg then -(m : Int) else m : Int) : ℚ) * 2 ^ e := by
    rw [singleRat, hx, toRat_finite]
    cases neg <;> simp
  rw [roundAway_of_neg hx he]
  generalize (2 * m + 2 ^ (-e).toNat) / (2 * 2 ^ (-e).toNat) = k at hlo hhi ⊢
  generalize 2 ^ (-e).toNat = d at hd hlo hhi hinv
  have hk := half_away_le hc.1 hd hlo
  rcases Nat.eq_zero_or_pos k with rfl | hk0
  · have hrx := decodeSingle_roundRat_zero neg
    obtain ⟨hv, hfin⟩ := singleRat_sub_zero hx hrx
    rw [hrx, hv, hx', singleRat, hrx]
    refine ⟨by cases neg <;> simp [Decoded.truncInt], abs_mul_zpow_le_half hinv ?_,
      by cases neg <;> simp [Decoded.truncInt, toRat_finite], hfin⟩
    cases neg <;> simp only [Bool.false_eq_true, ↓reduceIte, Int.natAbs_neg,
      Int.natAbs_natCast] <;> omega
  · have hrx := decodeSingle_roundRat_small_int neg hk0 (by omega)
    have hr : singleRat (singleOfBits (BinaryFormat.single.roundRat neg k 1)) =
        if neg then -(k : ℚ) else k := by
      rw [singleRat, hrx, toRat_small_int neg hk0 (by omega)]
    have hz : singleRat x - singleRat (singleOfBits (BinaryFormat.single.roundRat neg k 1)) =
        ((if neg then -((m : Int) - (k * d : Nat)) else (m : Int) - (k * d : Nat) : Int) : ℚ) *
          2 ^ e := by
      have hk' : (k : ℚ) = (k * d : Nat) * 2 ^ e := by
        push_cast
        rw [mul_assoc, mul_comm (d : ℚ), hinv, mul_one]
      rw [hx', hr]
      cases neg
      · simp only [Bool.false_eq_true, ↓reduceIte, Int.cast_sub, Int.cast_natCast]
        rw [hk']
        ring
      · simp only [↓reduceIte, Int.cast_neg, Int.cast_sub, Int.cast_natCast]
        rw [hk']
        ring
    have hkd : d ≤ k * d := Nat.le_mul_of_pos_left d hk0
    have hzb := remainder_bounds hc.1 hlo hhi hkd
    have hzb' : (if neg then -((m : Int) - (k * d : Nat)) else (m : Int) - (k * d : Nat)).natAbs =
        ((m : Int) - (k * d : Nat)).natAbs := by
      cases neg <;> simp only [Bool.false_eq_true, ↓reduceIte, Int.natAbs_neg]
    rw [← hzb'] at hzb
    have hsub := singleRat_sub_exact hx hrx (by omega)
      (Nat.mul_pos hk0 (Nat.two_pow_pos _)) hz hzb.1 (min_le_left _ _) hc.2.1 hc.2.2.1
    rw [hsub.1, hrx, truncInt_small_int neg hk0 (by omega), hr]
    refine ⟨?_, abs_mul_zpow_le_half hinv hzb.2, by cases neg <;> simp, hsub.2⟩
    rw [← hz, hr]
    cases neg <;> simp

theorem le_iff_unpack_le (a b : Float32) :
    a ≤ b ↔ a.toModel.unpack.le b.toModel.unpack = true := by
  change Float32.le a b = true ↔ _
  unfold Float32.le
  rw [decide_eq_true_iff]
  rfl

theorem lt_iff_unpack_lt (a b : Float32) :
    a < b ↔ a.toModel.unpack.lt b.toModel.unpack = true := by
  change Float32.lt a b = true ↔ _
  unfold Float32.lt
  rw [decide_eq_true_iff]
  rfl

theorem unpack_of_decodeSingle_pos {x : Float32} {neg : Bool} {m : Nat} {e : Int} (hm : 0 < m)
    (h : decodeSingle x = .finite neg m e) :
    ∃ hp, x.toModel.unpack = .finite (if neg then .negative else .positive) m e hp := by
  rw [decodeSingle_eq] at h
  obtain ⟨s, hp, hs, hu⟩ := ofUnpacked_eq_finite hm h
  refine ⟨hp, ?_⟩
  rw [hu]
  cases s <;> simp [signNeg] at hs <;> simp [← hs]

theorem cast_mul_zpow_lt {m : Nat} {e : Int} (hm : m < 2 ^ 24) (he : e < 8) :
    (m : ℚ) * 2 ^ e < 2 ^ 31 := by
  have hz : (2 : ℚ) ^ e ≤ 2 ^ (7 : Int) := zpow_le_zpow_right₀ (by norm_num) (by omega)
  have hm' : (m : ℚ) < 2 ^ 24 := by exact_mod_cast hm
  calc (m : ℚ) * 2 ^ e ≤ m * 2 ^ (7 : Int) := by gcongr
    _ < 2 ^ 24 * 2 ^ (7 : Int) := by gcongr
    _ = 2 ^ 31 := by norm_num

/-- Singles at or above `-2^31` and below `2^31` are finite, with values in that range; NaN
and the infinities fail one of the two comparisons. -/
theorem finite_of_between {r lo hi : Float32}
    (hlo : decodeSingle lo = .finite true (2 ^ 23) 8)
    (hhi : decodeSingle hi = .finite false (2 ^ 23) 8) (h₁ : lo ≤ r) (h₂ : r < hi) :
    ∃ neg m e, decodeSingle r = .finite neg m e ∧ -2 ^ 31 ≤ singleRat r ∧ singleRat r < 2 ^ 31 := by
  obtain ⟨hplo, hulo⟩ := unpack_of_decodeSingle_pos (by norm_num) hlo
  obtain ⟨hphi, huhi⟩ := unpack_of_decodeSingle_pos (by norm_num) hhi
  simp only [↓reduceIte, Bool.false_eq_true] at hulo huhi
  rw [le_iff_unpack_le, hulo] at h₁
  rw [lt_iff_unpack_lt, huhi] at h₂
  have hd := decodeSingle_eq r
  rw [singleRat_eq, decodeSingle_eq]
  generalize r.toModel.unpack = u at h₁ h₂ hd ⊢
  cases u with
  | notANumber => simp [UnpackedFloat.le, UnpackedFloat.compare] at h₁
  | infinity s =>
    cases s
    · simp [UnpackedFloat.le, UnpackedFloat.compare] at h₁
    · simp [UnpackedFloat.lt, UnpackedFloat.compare] at h₂
  | zero s => exact ⟨_, _, _, rfl, by simp, by simp⟩
  | finite s m e hp =>
    have hd' : BinaryFormat.single.decode (bitsOf r) = .finite (signNeg s) m e := hd
    have hm : m < 2 ^ 24 := (canonical_of_decode hd').1
    refine ⟨_, _, _, rfl, ?_⟩
    rw [ofUnpacked_finite_toRat]
    have hpos : (0 : ℚ) ≤ (m : ℚ) * 2 ^ e := by positivity
    cases s
    · simp only [UnpackedFloat.le, UnpackedFloat.compare, Option.any_some, Ordering.isLE_swap,
        Ordering.isGE_iff_ne_lt, Ordering.then_eq_lt, compare_lt_iff_lt,
        compare_eq_iff_eq] at h₁
      simp only [Sign.apply, Int.cast_neg, Int.cast_natCast, neg_mul]
      have hb : (m : ℚ) * 2 ^ e ≤ 2 ^ 31 := by
        by_cases he : e < 8
        · exact (cast_mul_zpow_lt hm he).le
        · have he8 : e = 8 := by omega
          have hm' : (m : ℚ) ≤ 2 ^ 23 := by exact_mod_cast (show m ≤ 2 ^ 23 by omega)
          rw [he8]
          calc (m : ℚ) * 2 ^ (8 : Int) ≤ 2 ^ 23 * 2 ^ (8 : Int) := by gcongr
            _ = 2 ^ 31 := by norm_num
      constructor <;> linarith
    · simp only [UnpackedFloat.lt, UnpackedFloat.compare, beq_iff_eq, Option.some.injEq,
        Ordering.then_eq_lt, compare_lt_iff_lt, compare_eq_iff_eq] at h₂
      simp only [Sign.apply, Int.cast_natCast]
      have hb : (m : ℚ) * 2 ^ e < 2 ^ 31 := by
        rcases h₂ with he | ⟨rfl, hm'⟩
        · exact cast_mul_zpow_lt hm he
        · have hm'' : (m : ℚ) < 2 ^ 23 := by exact_mod_cast hm'
          calc (m : ℚ) * 2 ^ (8 : Int) < 2 ^ 23 * 2 ^ (8 : Int) := by gcongr
            _ = 2 ^ 31 := by norm_num
      constructor <;> linarith

/-- Rounding half away from zero splits a finite single exactly into an integer, the
rounded single's integer part, and a remainder of at most one half that is itself a finite
single. -/
theorem roundAway_split {x : Float32} {neg : Bool} {m : Nat} {e : Int}
    (hx : decodeSingle x = .finite neg m e) :
    ((decodeSingle (roundAway x)).truncInt : ℚ) + singleRat (x - roundAway x) = singleRat x ∧
      |singleRat (x - roundAway x)| ≤ 1 / 2 ∧
      ((decodeSingle (roundAway x)).truncInt : ℚ) = singleRat (roundAway x) ∧
      (x - roundAway x).isFinite = true := by
  by_cases he : 0 ≤ e
  · exact roundAway_split_of_nonneg hx he
  · exact roundAway_split_of_neg hx (by omega)

theorem roundAway_of_not_finite {x : Float32} (hx : ∀ neg m e, decodeSingle x ≠ .finite neg m e) :
    roundAway x = x := by
  unfold roundAway
  split
  · rename_i neg m e h
    exact absurd h (hx neg m e)
  · rfl

end PointerAccel.Binary
