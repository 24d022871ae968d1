import Mathlib
import PointerAccel.Proofs.Nearest.Round

/-!
# The value `roundRat` writes

`roundRat` rounds `num / den` at the last place of its binade, never below the lowest
exponent, to nearest with ties to even, and packs the result. Read back, the bits are that
rounded value: `RoundsTo f v w` says `w` is `v` rounded so in `f`. The conversions and the
arithmetic of the engine are all such roundings, and what they need of one follows from
`RoundsTo` alone:

* `decode_pack`: packing a finite value in range and reading the bits back gives it back;
* `roundRat_fits`: below the largest binade, `roundRat` packs a finite value that its
  argument rounds to;
* `convert_of_decode`: converting a finite value between formats is `roundRat` of its fraction;
* `RoundsTo.eq_of_nat`: a whole number with no more bits than a significand rounds to itself;
* `RoundsTo.le_of_nat`: rounding never falls below a whole number it starts above;
* `RoundsTo.le_add`: below one, rounding adds at most a quarter of the last place of the
  binade under one;
* `RoundsTo.le_two_zpow`: rounding never passes a power of two above the value.
-/

namespace PointerAccel.Binary

open Float.Model Float.Model.UnpackedFloat BinaryFormat

/-- `w` is `v` rounded to nearest, ties to even, at the last place of the binade of `v` in `f`,
or at the lowest exponent when that place is below it. -/
def RoundsTo (f : BinaryFormat) (v w : ℚ) : Prop :=
  ∃ (B : Int) (n : Nat), ((2 : ℚ) ^ (B + f.fracBits) ≤ v ∧ v < 2 ^ (B + f.fracBits + 1)) ∧
    NearestEven n (v / 2 ^ max B f.minExp) ∧ w = n * 2 ^ max B f.minExp

/-- A significand and an exponent that `f` writes as a finite value: the significand below twice
the hidden bit, the exponent in range, and the hidden bit set unless the exponent is the
lowest. -/
structure BinaryFormat.Fits (f : BinaryFormat) (m : Nat) (q : Int) : Prop where
  lt : m < 2 * f.hidden
  min : f.minExp ≤ q
  max : q ≤ f.maxExp
  norm : f.hidden ≤ m ∨ q = f.minExp

/-! ## Packing and reading back -/

theorem div_mod_mul_add {P r : Nat} (c : Nat) (hr : r < P) :
    (c * P + r) / P = c ∧ (c * P + r) % P = r := by
  have hP : 0 < P := by omega
  constructor
  · rw [Nat.mul_comm, Nat.mul_add_div hP, Nat.div_eq_of_lt hr, Nat.add_zero]
  · rw [Nat.mul_comm, Nat.mul_add_mod, Nat.mod_eq_of_lt hr]

theorem exponent_span {f : BinaryFormat} (hw : 2 ≤ f.expBits) :
    4 ≤ Nat.pow 2 f.expBits ∧ f.maxExp - f.minExp = (Nat.pow 2 f.expBits : Int) - 3 := by
  have hE4 : 4 ≤ Nat.pow 2 f.expBits :=
    calc 4 = Nat.pow 2 2 := rfl
      _ ≤ Nat.pow 2 f.expBits := Nat.pow_le_pow_right (by norm_num) hw
  refine ⟨hE4, ?_⟩
  unfold maxExp minExp topField
  omega

theorem pack_body_lt {f : BinaryFormat} (hw : 2 ≤ f.expBits) {m : Nat} {q : Int}
    (hc : f.Fits m q) : (q - f.minExp).toNat * f.hidden + m < f.signBit := by
  obtain ⟨hE4, hrange⟩ := exponent_span hw
  have hK : (q - f.minExp).toNat + 2 ≤ Nat.pow 2 f.expBits := by
    have := hc.max
    have := hc.min
    omega
  have hsb : f.signBit = f.hidden * Nat.pow 2 f.expBits := Nat.pow_add 2 _ _
  rw [hsb]
  calc (q - f.minExp).toNat * f.hidden + m < (q - f.minExp).toNat * f.hidden + 2 * f.hidden := by
        have := hc.lt
        omega
    _ = ((q - f.minExp).toNat + 2) * f.hidden := by ring
    _ ≤ Nat.pow 2 f.expBits * f.hidden := Nat.mul_le_mul_right _ hK
    _ = f.hidden * Nat.pow 2 f.expBits := Nat.mul_comm _ _

theorem pack_lt {f : BinaryFormat} (hw : 2 ≤ f.expBits) (neg : Bool) {m : Nat} {q : Int}
    (hc : f.Fits m q) : f.pack neg m q < 2 * f.signBit := by
  have := pack_body_lt hw hc
  unfold BinaryFormat.pack
  cases neg <;> simp only [if_true, if_false, Bool.false_eq_true] <;> omega

/-- Packing a finite value in range and reading the bits back gives it back, in any bit format
with room for more than the special values. -/
theorem decode_pack {f : BinaryFormat} (hw : 2 ≤ f.expBits) (neg : Bool) {m : Nat} {q : Int}
    (hc : f.Fits m q) : f.decode (f.pack neg m q) = .finite neg m q := by
  have hP := hidden_pos f
  obtain ⟨hE4, hrange⟩ := exponent_span hw
  have hbody := pack_body_lt hw hc
  have hsign : decide (f.signBit ≤ f.pack neg m q % (2 * f.signBit)) = neg := by
    rw [Nat.mod_eq_of_lt (pack_lt hw neg hc)]
    unfold BinaryFormat.pack
    cases neg <;> simp only [if_true, if_false, Bool.false_eq_true, decide_eq_true_eq,
      decide_eq_false_iff_not, not_le] <;> omega
  obtain ⟨hm, hq, hq', hnorm⟩ := hc
  obtain ⟨j, r, hj, hr, hmr, hjq⟩ : ∃ j r, j ≤ 1 ∧ r < f.hidden ∧ m = j * f.hidden + r ∧
      (j = 0 → q = f.minExp) := by
    by_cases hn : f.hidden ≤ m
    · exact ⟨1, m - f.hidden, le_refl _, by omega, by omega, by omega⟩
    · exact ⟨0, m, by omega, by omega, by omega, fun _ => hnorm.resolve_left hn⟩
  obtain ⟨K, hK, hK'⟩ : ∃ K : Nat, (q - f.minExp).toNat = K ∧ (K : Int) = q - f.minExp :=
    ⟨_, rfl, Int.toNat_of_nonneg (by omega)⟩
  have hb : f.pack neg m q =
      ((if neg then Nat.pow 2 f.expBits else 0) + (K + j)) * f.hidden + r := by
    have hsb : f.signBit = f.hidden * Nat.pow 2 f.expBits := Nat.pow_add 2 _ _
    unfold BinaryFormat.pack
    rw [hsb, hK, hmr]
    cases neg <;> simp only [if_true, if_false, Bool.false_eq_true] <;> ring
  have hfield : K + j < Nat.pow 2 f.expBits - 1 := by omega
  obtain ⟨hdiv, hmod⟩ := div_mod_mul_add ((if neg then Nat.pow 2 f.expBits else 0) + (K + j)) hr
  have hfield' : ((if neg then Nat.pow 2 f.expBits else 0) + (K + j)) % Nat.pow 2 f.expBits =
      K + j := by
    cases neg <;> simp only [if_true, if_false, Bool.false_eq_true, Nat.zero_add,
      Nat.add_mod_left] <;> exact Nat.mod_eq_of_lt (by omega)
  unfold BinaryFormat.decode
  dsimp only
  rw [hsign, hb, hdiv, hmod, hfield', if_neg (by unfold topField; omega)]
  split_ifs with h0
  · have hj0 : j = 0 := by omega
    rw [hjq hj0, hmr, hj0, Nat.zero_mul, Nat.zero_add]
  · have hj1 : j = 1 := by
      by_contra hj1
      have := hjq (by omega)
      omega
    rw [hmr, hj1, Nat.one_mul, Nat.add_comm f.hidden r]
    congr 1
    unfold minExp at hK'
    push_cast
    omega

theorem unpack_of_fits {F : Format} {f : BinaryFormat} (hf : FormatMatch F f)
    (b : BitVec F.numBits) {neg : Bool} {m : Nat} {q : Int} (hm : 0 < m) (hc : f.Fits m q)
    (hb : b.toNat = f.pack neg m q) :
    ∃ s hp, signNeg s = neg ∧ UnpackedFloat.unpack F b = .finite s m q hp ∧
      UnpackedFloat.pack F (UnpackedFloat.unpack F b) = b := by
  obtain ⟨s, hp, hs, hu⟩ := unpack_of_decode hf b hm (by rw [hb]; exact decode_pack hf.wide neg hc)
  refine ⟨s, hp, hs, hu, ?_⟩
  apply BitVec.eq_of_toNat_eq
  rw [hu, pack_finite_toNat hf s hp hc.lt hc.min hc.norm, if_neg (not_lt.2 hc.max), hs, hb]

/-! ## Rounding to nearest -/

theorem NearestEven.self (k : Nat) : NearestEven k k := by
  refine ⟨by linarith, by linarith, fun h => ?_⟩
  rcases h with h | h <;> linarith

theorem nearestEven_divRoundEven (N : Nat) {D : Nat} (hD : 0 < D) :
    NearestEven (divRoundEven N D) ((N : ℚ) / D) := by
  have h := (describes_ofMantissaAndAccuracy (N / D) hD (Nat.mod_lt N hD)).nearestEven
  have hv : ((N / D : Nat) : ℚ) + ((N % D : Nat) : ℚ) / D = N / D := by
    have hD' : (D : ℚ) ≠ 0 := by exact_mod_cast hD.ne'
    field_simp
    exact_mod_cast (by rw [Nat.mul_comm]; exact Nat.div_add_mod N D)
  rw [hv] at h
  rwa [divRoundEven_eq_of_rat hD h.1 h.2.1 h.2.2]

theorem nearestEven_scaledRound (num : Nat) {den : Nat} (hden : 0 < den) (q : Int) :
    NearestEven (scaledRound num den q) ((num : ℚ) / den / 2 ^ q) := by
  obtain ⟨N, D, hD, hround, -, hval⟩ := scaled_quotient num den q hden
  rw [hround, ← hval]
  exact nearestEven_divRoundEven N hD

/-- Below the largest binade, `roundRat` packs a finite value, the one its argument rounds
to. -/
theorem roundRat_fits {f : BinaryFormat} (hw : 2 ≤ f.expBits) (neg : Bool) {num den : Nat}
    (hnum : 0 < num) (hden : 0 < den) (hB : f.binadeExp num den < f.maxExp) :
    ∃ m q, f.roundRat neg num den = f.pack neg m q ∧ f.Fits m q ∧
      RoundsTo f ((num : ℚ) / den) (m * 2 ^ q) := by
  obtain ⟨hE4, hspan⟩ := exponent_span hw
  have hbin := binadeExp_bounds_of f hnum hden
  have hnear := nearestEven_scaledRound num hden (max (f.binadeExp num den) f.minExp)
  obtain ⟨hle, hnorm⟩ := NearestEven.binade_range f hbin (by rw [add_sub_cancel_right]) hnear
  have hq : f.minExp ≤ max (f.binadeExp num den) f.minExp := le_max_right _ _
  have hq' : max (f.binadeExp num den) f.minExp < f.maxExp := max_lt hB (by omega)
  unfold roundRat
  rw [if_neg (Nat.pos_iff_ne_zero.mp hnum)]
  dsimp only
  rcases lt_or_eq_of_le hle with hlt | hcarry
  · simp only [hlt.ne, decide_false, Bool.false_eq_true, if_false]
    rw [if_neg (by omega)]
    exact ⟨_, _, rfl, ⟨hlt, hq, hq'.le, hnorm⟩, _, _, hbin, hnear, rfl⟩
  · simp only [hcarry, decide_true, if_true]
    rw [if_neg (by omega)]
    refine ⟨_, _, rfl, ⟨by have := hidden_pos f; omega, hq.trans (Int.le_add_one le_rfl),
      Int.add_one_le_of_lt hq', Or.inl le_rfl⟩, _, _, hbin, hnear, ?_⟩
    rw [hcarry, zpow_add_one₀ two_ne_zero]
    push_cast
    ring

/-! ## What a rounded value keeps -/

section RoundsTo

variable {f : BinaryFormat} {v w : ℚ}

theorem hidden_le_of_binade {B : Int} {n : Nat} (hlo : (2 : ℚ) ^ (B + f.fracBits) ≤ v)
    (ht : max B f.minExp = B) (hn : NearestEven n (v / 2 ^ max B f.minExp)) : f.hidden ≤ n := by
  refine hn.le_of_le ?_
  rw [ht, hidden_cast, le_div_iff₀ (zpow_pos two_pos _), ← zpow_add₀ two_ne_zero, add_comm]
  exact hlo

theorem RoundsTo.eq_of_nat (h : RoundsTo f v w) (hmin : f.minExp ≤ 0) {k : Nat} (hv : v = k)
    (hk : k < 2 ^ (f.fracBits + 1)) : w = k := by
  obtain ⟨B, n, ⟨hlo, -⟩, hn, rfl⟩ := h
  set t := max B f.minExp
  have hB : B ≤ 0 := by
    have hk' : (k : ℚ) < 2 ^ ((f.fracBits : Int) + 1) := by
      rw [show (f.fracBits : Int) + 1 = ((f.fracBits + 1 : Nat) : Int) by push_cast; rfl,
        zpow_natCast]
      exact_mod_cast hk
    have := two_zpow_lt_two_zpow (lt_of_le_of_lt hlo (hv ▸ hk'))
    omega
  have ht : t ≤ 0 := max_le hB hmin
  have he : ((2 ^ (-t).toNat : Nat) : ℚ) = (2 : ℚ) ^ (-t) := by
    rw [Nat.cast_pow, Nat.cast_ofNat, ← zpow_natCast, Int.toNat_of_nonneg (by omega)]
  have hK : v / 2 ^ t = ((k * 2 ^ (-t).toNat : Nat) : ℚ) := by
    rw [Nat.cast_mul, he, hv, div_eq_mul_inv, ← zpow_neg]
  rw [hK] at hn
  rw [hn.unique (NearestEven.self _), Nat.cast_mul, he, mul_assoc, ← zpow_add₀ two_ne_zero,
    neg_add_cancel, zpow_zero, mul_one]

/-- Rounding does not fall below a whole number the value is at least, as long as that number
has no more bits than a significand. -/
theorem RoundsTo.le_of_nat (h : RoundsTo f v w) (hmin : f.minExp ≤ 0) {k : Nat}
    (hkv : (k : ℚ) ≤ v) (hk : k ≤ 2 ^ (f.fracBits + 1)) : (k : ℚ) ≤ w := by
  obtain ⟨B, n, ⟨hlo, -⟩, hn, rfl⟩ := h
  set t := max B f.minExp with ht
  have hpos : (0 : ℚ) < 2 ^ t := zpow_pos two_pos t
  by_cases ht0 : t ≤ 0
  · have he : ((2 ^ (-t).toNat : Nat) : ℚ) = (2 : ℚ) ^ (-t) := by
      rw [Nat.cast_pow, Nat.cast_ofNat, ← zpow_natCast, Int.toNat_of_nonneg (by omega)]
    have hK : (k : ℚ) / 2 ^ t = ((k * 2 ^ (-t).toNat : Nat) : ℚ) := by
      rw [Nat.cast_mul, he, div_eq_mul_inv, ← zpow_neg]
    have hkn := hn.le_of_le (hK ▸ div_le_div_of_nonneg_right hkv hpos.le)
    calc (k : ℚ) = ((k * 2 ^ (-t).toNat : Nat) : ℚ) * 2 ^ t := by
          rw [← hK, div_mul_cancel₀ _ hpos.ne']
      _ ≤ n * 2 ^ t := by gcongr
  · have htB : t = B := by rw [ht]; exact max_eq_left (by omega)
    have hn' : f.hidden ≤ n := hidden_le_of_binade hlo htB hn
    calc (k : ℚ) ≤ 2 ^ ((f.fracBits : Int) + 1) := by
          rw [show (f.fracBits : Int) + 1 = ((f.fracBits + 1 : Nat) : Int) by push_cast; rfl,
            zpow_natCast]
          exact_mod_cast hk
      _ ≤ 2 ^ ((f.fracBits : Int) + t) := zpow_le_zpow_right₀ (by norm_num) (by omega)
      _ = (f.hidden : ℚ) * 2 ^ t := by rw [hidden_cast, zpow_add₀ two_ne_zero]
      _ ≤ n * 2 ^ t := by gcongr

/-- Below one, rounding adds at most `2^-(p+2)`, half the last place of the binade under one,
when the lowest exponent is below that place. -/
theorem RoundsTo.le_add (h : RoundsTo f v w) (hv : v < 1)
    (hmin : f.minExp ≤ -(f.fracBits : Int) - 1) : w ≤ v + 2 ^ (-(f.fracBits : Int) - 2) := by
  obtain ⟨B, n, ⟨hlo, -⟩, hn, rfl⟩ := h
  have hpos : (0 : ℚ) < 2 ^ max B f.minExp := zpow_pos two_pos _
  have hB : B + f.fracBits < 0 :=
    two_zpow_lt_two_zpow (lt_of_le_of_lt hlo (show v < (2 : ℚ) ^ (0 : Int) by rwa [zpow_zero]))
  have hhalf : (n : ℚ) ≤ v / 2 ^ max B f.minExp + 1 / 2 := by linarith [hn.1]
  have hstep : (n : ℚ) * 2 ^ max B f.minExp ≤ v + 2 ^ (max B f.minExp - 1) := by
    have h1 := mul_le_mul_of_nonneg_right hhalf hpos.le
    rw [add_mul, div_mul_cancel₀ _ hpos.ne'] at h1
    rw [zpow_sub₀ two_ne_zero, zpow_one]
    linarith
  have hexp : (2 : ℚ) ^ (max B f.minExp - 1) ≤ 2 ^ (-(f.fracBits : Int) - 2) :=
    zpow_le_zpow_right₀ (by norm_num) (by omega)
  linarith

theorem RoundsTo.pos (h : RoundsTo f v w) (hv : (2 : ℚ) ^ (f.minExp + f.fracBits) ≤ v) :
    0 < w := by
  obtain ⟨B, n, ⟨hlo, hhi⟩, hn, rfl⟩ := h
  have hB : f.minExp + f.fracBits < B + f.fracBits + 1 :=
    two_zpow_lt_two_zpow (lt_of_le_of_lt hv hhi)
  have hn' := hidden_le_of_binade hlo (max_eq_left (by omega)) hn
  exact mul_pos (by exact_mod_cast lt_of_lt_of_le (hidden_pos f) hn') (zpow_pos two_pos _)

theorem RoundsTo.mant_pos {m : Nat} {q : Int} (h : RoundsTo f v (m * 2 ^ q))
    (hv : (2 : ℚ) ^ (f.minExp + f.fracBits) ≤ v) : 0 < m := by
  have hw := h.pos hv
  rcases Nat.eq_zero_or_pos m with rfl | hm
  · simp at hw
  · exact hm

theorem RoundsTo.le_two_zpow (h : RoundsTo f v w) {X : Int} (hX : v < 2 ^ X)
    (hmin : f.minExp + f.fracBits + 1 ≤ X) : w ≤ 2 ^ X := by
  obtain ⟨B, n, ⟨hlo, hhi⟩, hn, rfl⟩ := h
  have hB : B + f.fracBits < X := two_zpow_lt_two_zpow (lt_of_le_of_lt hlo hX)
  have hle := (NearestEven.binade_range f ⟨hlo, hhi⟩ (by rw [add_sub_cancel_right]) hn).1
  calc (n : ℚ) * 2 ^ max B f.minExp ≤ (2 * f.hidden : Nat) * 2 ^ max B f.minExp := by
        gcongr
    _ = 2 ^ ((f.fracBits : Int) + 1 + max B f.minExp) := by
        rw [zpow_add₀ two_ne_zero, zpow_add_one₀ two_ne_zero, ← hidden_cast]
        push_cast
        ring
    _ ≤ 2 ^ X := zpow_le_zpow_right₀ (by norm_num) (by omega)

end RoundsTo

/-! ## Conversions

`convert` reads a finite value as the fraction `ratOf` and rounds that in the target format. -/

theorem ratOf_spec (m : Nat) (q : Int) :
    0 < (ratOf m q).2 ∧ ((ratOf m q).1 : ℚ) / (ratOf m q).2 = m * 2 ^ q := by
  unfold ratOf
  split
  · rename_i hq
    refine ⟨Nat.one_pos, ?_⟩
    rw [Nat.cast_one, div_one, Nat.cast_mul, Nat.pow_eq, Nat.cast_pow, ← zpow_natCast,
      Int.toNat_of_nonneg hq]
    rfl
  · rename_i hq
    refine ⟨Nat.two_pow_pos _, ?_⟩
    rw [Nat.pow_eq, Nat.cast_pow, ← zpow_natCast, Int.toNat_of_nonneg (by omega), zpow_neg,
      div_inv_eq_mul]
    rfl

theorem ratOf_fst_pos {m : Nat} (hm : 0 < m) (q : Int) : 0 < (ratOf m q).1 := by
  unfold ratOf
  split
  · exact Nat.mul_pos hm (Nat.two_pow_pos _)
  · exact hm

-- stated for any bits: with the format's bits written out, the kernel unfolds too far
theorem convert_of_decode {f g : BinaryFormat} {bits : Nat} {neg : Bool} {m : Nat} {q : Int}
    (h : f.decode bits = .finite neg m q) :
    convert f g bits = g.roundRat neg (ratOf m q).1 (ratOf m q).2 := by
  unfold convert
  rw [h]

theorem roundRat_fits_of_lt {f : BinaryFormat} (hw : 2 ≤ f.expBits) (neg : Bool) {num den : Nat}
    (hnum : 0 < num) (hden : 0 < den) {X : Int} (h : (num : ℚ) / den < 2 ^ X)
    (hX : X ≤ f.maxExp + f.fracBits) :
    ∃ m q, f.roundRat neg num den = f.pack neg m q ∧ f.Fits m q ∧
      RoundsTo f ((num : ℚ) / den) (m * 2 ^ q) := by
  apply roundRat_fits hw neg hnum hden
  obtain ⟨hlo, -⟩ := binadeExp_bounds_of f hnum hden
  have hB := two_zpow_lt_two_zpow (lt_of_le_of_lt hlo h)
  omega

end PointerAccel.Binary
