import Mathlib
import PointerAccel.Proofs.Single.Bits

/-!
# Model formats and bit formats

The float model of `Float` and `Float32` is parametrised by a `Format`, the engine's own
conversions by a `BinaryFormat`; `binary32` and `single` have the same field widths, and so
have `binary64` and `double`. For matching formats the two agree on the bits of every value
they can both write: the model's packing of a signed zero or of a canonical `±m·2^q` is the
bit pattern `BinaryFormat.pack` gives, and a value past the largest exponent packs to the
same infinity.

* `FormatMatch`: the two formats have the same widths;
* `pack_zero_toNat`, `pack_finite_toNat`: packing in the model and in the bit format agree;
* `unpack_of_decode`: a pattern the bit format reads as a nonzero finite value unpacks in the
  model to the same sign, significand and exponent.
-/

namespace PointerAccel.Binary

open Float.Model Float.Model.UnpackedFloat BinaryFormat

/-- A model format and a bit format with the same field widths, with room in the exponent
field for more than the special values. -/
structure FormatMatch (F : Format) (f : BinaryFormat) : Prop where
  frac : F.mantissaBitsWithoutImplicit = f.fracBits
  exp : F.exponentBits = f.expBits
  wide : 2 ≤ f.expBits

theorem formatMatch_single : FormatMatch Format.binary32 single := ⟨rfl, rfl, by decide⟩

theorem formatMatch_double : FormatMatch Format.binary64 double := ⟨rfl, rfl, by decide⟩

theorem hidden_eq (f : BinaryFormat) : f.hidden = 2 ^ f.fracBits := rfl

theorem hidden_pos (f : BinaryFormat) : 0 < f.hidden := Nat.two_pow_pos _

theorem two_pow_expBits {F : Format} {f : BinaryFormat} (h : FormatMatch F f) :
    2 ^ f.expBits = 2 * f.bias + 2 := by
  obtain ⟨k, hk⟩ : ∃ k, f.expBits = k + 1 := ⟨f.expBits - 1, by have := h.wide; omega⟩
  have hp : 1 ≤ 2 ^ k := Nat.one_le_two_pow
  rw [bias, hk, Nat.add_sub_cancel, Nat.pow_succ]
  change 2 ^ k * 2 = 2 * (2 ^ k - 1) + 2
  omega

namespace FormatMatch

variable {F : Format} {f : BinaryFormat} (h : FormatMatch F f)
include h

theorem mantissaBits_eq : F.mantissaBits = f.fracBits + 1 := by
  rw [Format.mantissaBits, h.frac, Nat.add_comm]

theorem exponentBias_eq : F.exponentBias = f.bias := by
  rw [Format.exponentBias, h.exp]
  rfl

theorem minExponent_eq : F.minExponent = f.minExp := by
  have hp : 1 ≤ 2 ^ (f.expBits - 1) := Nat.one_le_two_pow
  rw [Format.minExponent, mantissaBits_eq h, h.exp, minExp, bias]
  change (3 : Int) - (2 ^ (f.expBits - 1) : Nat) - ((f.fracBits + 1 : Nat) : Int) =
    1 - ((2 ^ (f.expBits - 1) - 1 : Nat) : Int) - f.fracBits
  push_cast [Nat.cast_sub hp]
  ring

theorem maxExp_eq : f.maxExp = (f.bias : Int) - f.fracBits := by
  have hw := two_pow_expBits h
  rw [maxExp, topField]
  change (((2 ^ f.expBits - 1 - 1 : Nat) : Int)) - f.bias - f.fracBits = _
  rw [hw]
  push_cast [show 2 * f.bias + 2 - 1 - 1 = 2 * f.bias by omega]
  ring

theorem minExp_le_maxExp : f.minExp ≤ f.maxExp := by
  have hw := two_pow_expBits h
  have h4 : 4 ≤ 2 ^ f.expBits := by
    calc 4 = 2 ^ 2 := rfl
      _ ≤ 2 ^ f.expBits := Nat.pow_le_pow_right (by norm_num) h.wide
  rw [h.maxExp_eq, minExp]
  omega

end FormatMatch

/-! ## Packing -/

theorem packComponents_toNat (F : Format) (s : Sign) (ex : BitVec F.exponentBits)
    (m : BitVec F.mantissaBitsWithoutImplicit) :
    (packComponents F s ex m).toNat =
      (if signNeg s then 2 ^ (F.mantissaBitsWithoutImplicit + F.exponentBits) else 0) +
        ex.toNat * 2 ^ F.mantissaBitsWithoutImplicit + m.toNat := by
  unfold packComponents
  rw [BitVec.toNat_append, BitVec.toNat_append, ← Nat.shiftLeft_add_eq_or_of_lt m.isLt,
    ← Nat.shiftLeft_add_eq_or_of_lt ex.isLt, Nat.shiftLeft_eq, Nat.shiftLeft_eq, Nat.add_mul,
    Nat.mul_assoc, ← Nat.pow_add, Nat.add_comm F.exponentBits]
  cases s <;> simp [signNeg, Sign.toBitVec]

theorem signBit_eq {F : Format} {f : BinaryFormat} (h : FormatMatch F f) :
    2 ^ (F.mantissaBitsWithoutImplicit + F.exponentBits) = f.signBit := by
  rw [h.frac, h.exp]
  rfl

theorem pack_zero_toNat {F : Format} {f : BinaryFormat} (h : FormatMatch F f) (s : Sign) :
    (UnpackedFloat.pack F (.zero s)).toNat = f.pack (signNeg s) 0 f.minExp := by
  rw [UnpackedFloat.pack, packedZero, packComponents_toNat, signBit_eq h, BinaryFormat.pack]
  simp

/-- The model packs a canonical finite value as the bit format does, and one past the largest
exponent as the infinity of its sign. -/
theorem pack_finite_toNat {F : Format} {f : BinaryFormat} (h : FormatMatch F f) (s : Sign)
    {m : Nat} {q : Int} (hm : 0 < m) (hlt : m < 2 * f.hidden) (hq : f.minExp ≤ q)
    (hnorm : f.hidden ≤ m ∨ q = f.minExp) :
    (UnpackedFloat.pack F (.finite s m q hm)).toNat =
      if f.maxExp < q then (if signNeg s then f.signBit else 0) + f.infBits
      else f.pack (signNeg s) m q := by
  have hw := two_pow_expBits h
  have hbias := h.exponentBias_eq
  have hmax := h.maxExp_eq
  have hP := hidden_eq f
  rw [minExp] at hq hnorm
  have hb : ((q + F.exponentBias + F.mantissaBitsWithoutImplicit).toNat : Int) =
      q + f.bias + f.fracBits := by
    rw [hbias, h.frac]
    omega
  unfold UnpackedFloat.pack
  dsimp only
  rw [show 2 ^ F.exponentBits = 2 * f.bias + 2 by rw [h.exp, hw]]
  by_cases hover : f.maxExp < q
  · rw [if_pos (by omega), if_pos hover, packedInfinity, packComponents_toNat, signBit_eq h,
      BitVec.neg_one_eq_allOnes, BitVec.toNat_allOnes,
      show (0 : BitVec F.mantissaBitsWithoutImplicit).toNat = 0 by simp, Nat.add_zero, infBits,
      topField, h.exp, h.frac]
    rfl
  rw [if_neg (by omega), if_neg hover, BinaryFormat.pack]
  by_cases hn : m.log2 + 1 = F.mantissaBits
  · rw [if_pos hn, packComponents_toNat, signBit_eq h, BitVec.toNat_ofNat, BitVec.toNat_ofNat,
      Nat.mod_eq_of_lt (by rw [h.exp, hw]; omega), h.frac, ← hP, hbias, minExp]
    have hlo : f.hidden ≤ m := by
      rw [h.mantissaBits_eq] at hn
      rw [hP, ← show m.log2 = f.fracBits by omega]
      exact Nat.log2_self_le (Nat.ne_of_gt hm)
    have hmod : m % f.hidden = m - f.hidden := by
      rw [Nat.mod_eq_sub_mod hlo, Nat.mod_eq_of_lt (by omega)]
    obtain ⟨k, hk, hk'⟩ : ∃ k, (q + f.bias + f.fracBits).toNat = k + 1 ∧
        (q - (1 - (f.bias : Int) - f.fracBits)).toNat = k :=
      ⟨(q - (1 - f.bias - f.fracBits)).toNat, by omega, rfl⟩
    rw [hmod, hk, hk', Nat.add_mul, one_mul]
    omega
  · rw [if_neg hn, packComponents_toNat, signBit_eq h, BitVec.toNat_ofNat, BitVec.toNat_ofNat,
      Nat.zero_mod, Nat.zero_mul, h.frac, ← hP]
    have hsub : m < f.hidden := by
      by_contra hge
      apply hn
      rw [h.mantissaBits_eq]
      have h1 : f.fracBits ≤ m.log2 := (Nat.le_log2 (Nat.ne_of_gt hm)).2 (by rw [← hP]; omega)
      have h2 : m.log2 < f.fracBits + 1 := (Nat.log2_lt (Nat.ne_of_gt hm)).2
        (by rw [Nat.pow_succ, ← hP]; omega)
      omega
    have hq' : q = 1 - (f.bias : Int) - f.fracBits := hnorm.resolve_left (by omega)
    rw [Nat.mod_eq_of_lt hsub, minExp, hq', sub_self]
    simp

/-! ## Unpacking -/

theorem toNat_unpackMantissa (F : Format) (b : BitVec F.numBits) :
    (unpackMantissa b).toNat = b.toNat % 2 ^ F.mantissaBitsWithoutImplicit := by
  have := F.hm
  simp only [unpackMantissa, BitVec.toNat_cast, BitVec.extractLsb_toNat, Nat.shiftRight_zero]
  congr 2
  omega

theorem toNat_unpackExponent (F : Format) (b : BitVec F.numBits) :
    (unpackExponent b).toNat = b.toNat / 2 ^ F.mantissaBitsWithoutImplicit % 2 ^ F.exponentBits := by
  have := F.he
  simp only [unpackExponent, BitVec.toNat_cast, BitVec.extractLsb_toNat, Nat.shiftRight_eq_div_pow]
  congr 2
  omega

theorem signNeg_unpackSign {F : Format} {f : BinaryFormat} (h : FormatMatch F f) (b : BitVec F.numBits) :
    signNeg (Sign.ofBitVec (unpackSign b)) = decide (f.signBit ≤ b.toNat % (2 * f.signBit)) := by
  have hlt : b.toNat < 2 * f.signBit := by
    have := b.isLt
    rw [← signBit_eq h, Nat.mul_comm, ← Nat.pow_succ]
    unfold Format.numBits at this
    rwa [show (F.mantissaBitsWithoutImplicit + F.exponentBits).succ =
      1 + F.exponentBits + F.mantissaBitsWithoutImplicit by omega]
  have hs : (unpackSign b).toNat = b.toNat / f.signBit := by
    simp only [unpackSign, BitVec.toNat_cast, BitVec.extractLsb_toNat, Nat.shiftRight_eq_div_pow,
      Nat.sub_self, Nat.zero_add, Nat.pow_one, signBit_eq h]
    exact Nat.mod_eq_of_lt ((Nat.div_lt_iff_lt_mul (by rw [← signBit_eq h]; exact Nat.two_pow_pos _)).2
      (by omega))
  rw [Nat.mod_eq_of_lt hlt]
  unfold Sign.ofBitVec
  by_cases h0 : unpackSign b = 0#1
  · rw [if_pos h0]
    rw [h0, BitVec.toNat_zero] at hs
    have hp : 0 < f.signBit := by rw [← signBit_eq h]; exact Nat.two_pow_pos _
    simp only [signNeg, false_eq_decide_iff, not_le]
    exact (Nat.div_eq_zero_iff_lt hp).1 hs.symm
  · rw [if_neg h0]
    have hne : (unpackSign b).toNat ≠ 0 := fun hz => h0 (BitVec.eq_of_toNat_eq hz)
    have hp : 0 < f.signBit := by rw [← signBit_eq h]; exact Nat.two_pow_pos _
    simp only [signNeg, true_eq_decide_iff]
    by_contra hlt'
    exact hne (by rw [hs]; exact Nat.div_eq_of_lt (by omega))

theorem FormatMatch.two_pow_frac {F : Format} {f : BinaryFormat} (h : FormatMatch F f) :
    2 ^ F.mantissaBitsWithoutImplicit = f.hidden := by
  rw [h.frac, hidden_eq]

theorem FormatMatch.two_pow_exp {F : Format} {f : BinaryFormat} (h : FormatMatch F f) :
    2 ^ F.exponentBits = 2 ^ f.expBits := by
  rw [h.exp]

theorem unpackExponent_ne_allOnes {F : Format} {f : BinaryFormat} (h : FormatMatch F f)
    {b : BitVec F.numBits} (hb : b.toNat / f.hidden % 2 ^ f.expBits ≠ f.topField) :
    unpackExponent b ≠ -1#_ := by
  intro he
  have ht := congrArg BitVec.toNat he
  rw [toNat_unpackExponent, BitVec.neg_one_eq_allOnes, BitVec.toNat_allOnes, h.two_pow_frac,
    h.two_pow_exp] at ht
  exact hb ht

/-- A pattern the bit format reads as a nonzero finite `±m·2^q` unpacks in the model to the
same sign, significand and exponent. -/
theorem unpack_of_decode {F : Format} {f : BinaryFormat} (h : FormatMatch F f) (b : BitVec F.numBits)
    {neg : Bool} {m : Nat} {q : Int} (hm : 0 < m) (hd : f.decode b.toNat = .finite neg m q) :
    ∃ s hp, signNeg s = neg ∧ unpack F b = .finite s m q hp := by
  have hM := toNat_unpackMantissa F b
  have hE := toNat_unpackExponent F b
  rw [h.two_pow_frac] at hM hE
  rw [h.two_pow_exp] at hE
  unfold BinaryFormat.decode at hd
  simp only [Nat.pow_eq] at hd
  split_ifs at hd with htop
  · rename_i hzero
    obtain ⟨rfl, rfl, rfl⟩ := Decoded.finite.inj hd
    have h0 : unpackExponent b = 0#_ := BitVec.eq_of_toNat_eq (by rw [hE, hzero]; rfl)
    have hm0 : unpackMantissa b ≠ 0#_ := fun hz => by
      have := congrArg BitVec.toNat hz
      rw [hM, BitVec.toNat_zero] at this
      omega
    refine ⟨_, hm, signNeg_unpackSign h b, ?_⟩
    unfold UnpackedFloat.unpack
    simp only [if_neg (unpackExponent_ne_allOnes h htop), if_pos h0, dif_neg hm0,
      UnpackedFloat.finite.injEq, true_and]
    refine ⟨hM, ?_⟩
    rw [h0, BitVec.toNat_zero, h.exponentBias_eq, h.frac, minExp]
    push_cast
    ring
  · rename_i hzero
    obtain ⟨rfl, rfl, rfl⟩ := Decoded.finite.inj hd
    have h0 : unpackExponent b ≠ 0#_ := fun hz => by
      have := congrArg BitVec.toNat hz
      rw [hE, BitVec.toNat_zero] at this
      exact hzero this
    refine ⟨_, hm, signNeg_unpackSign h b, ?_⟩
    unfold UnpackedFloat.unpack
    simp only [if_neg (unpackExponent_ne_allOnes h htop), if_neg h0,
      UnpackedFloat.finite.injEq, true_and]
    refine ⟨?_, ?_⟩
    · rw [BitVec.toNat_append, ← Nat.shiftLeft_add_eq_or_of_lt (unpackMantissa b).isLt, hM,
        Nat.shiftLeft_eq, h.two_pow_frac]
      simp only [BitVec.toNat_ofNat, Nat.one_mod, Nat.one_mul]
      omega
    · rw [hE, h.exponentBias_eq, h.frac]
      push_cast
      ring

end PointerAccel.Binary
