import Mathlib
import PointerAccel.Binary.Single

/-!
# Single bit patterns and the float model

Lean computes with `Float32` through a logical model: a value is a 32-bit pattern, and
every operation unpacks its operands into `UnpackedFloat`s (NaN, a signed infinity, a
signed zero, or `±m·2^e`), computes, and packs the result. The engine reads singles
through `decodeSingle`, which works on the same bits with `BinaryFormat.single`. This
module ties the two readings together:

* `decode_toNat`: `BinaryFormat.single.decode` and the model's unpacking agree on every
  pattern;
* `unpack_pack_canonical`: packing a canonical finite value and unpacking it gives it
  back, so every unpacked value survives a pack;
* `decodeSingle_singleOfBits`: a pattern turned into a `Float32` reads back as the
  pattern itself, so `singleOfBits` of a computed pattern means what the pattern means;
* `eq_of_unpack_eq`, `decodeSingle_injective`: a single is determined by its unpacked value,
  and so by how it decodes, since the model keeps one NaN.
-/

namespace PointerAccel.Binary

open Float.Model Float.Model.UnpackedFloat

/-- Whether a model sign is negative. -/
def signNeg : Sign → Bool
  | .negative => true
  | .positive => false

/-- An unpacked model value read as a `Decoded` single; zeros keep their sign and take the
lowest exponent, as `BinaryFormat.decode` gives them. -/
def Decoded.ofUnpacked : UnpackedFloat → Decoded
  | .notANumber => .nan
  | .infinity s => .infinite (signNeg s)
  | .zero s => .finite (signNeg s) 0 BinaryFormat.single.minExp
  | .finite s m e _ => .finite (signNeg s) m e

theorem unpackMantissa_toNat (b : BitVec 32) :
    (@unpackMantissa Format.binary32 b).toNat = b.toNat % 2 ^ 23 := by
  simp [unpackMantissa]

theorem unpackExponent_toNat (b : BitVec 32) :
    (@unpackExponent Format.binary32 b).toNat = b.toNat / 2 ^ 23 % 2 ^ 8 := by
  simp [unpackExponent, Nat.shiftRight_eq_div_pow]

theorem unpackSign_toNat (b : BitVec 32) :
    (@unpackSign Format.binary32 b).toNat = b.toNat / 2 ^ 31 := by
  have := b.isLt
  simp [unpackSign, Nat.shiftRight_eq_div_pow]
  omega

theorem sign_ofBitVec_unpackSign (b : BitVec 32) :
    signNeg (Sign.ofBitVec (@unpackSign Format.binary32 b)) =
      decide (2 ^ 31 ≤ b.toNat) := by
  have h := unpackSign_toNat b
  have hlt := b.isLt
  unfold Sign.ofBitVec
  by_cases hs : @unpackSign Format.binary32 b = 0#1
  · rw [if_pos hs]
    rw [hs, BitVec.toNat_ofNat] at h
    simp only [signNeg, false_eq_decide_iff, not_le]
    omega
  · rw [if_neg hs]
    have h0 : (@unpackSign Format.binary32 b).toNat ≠ 0 := fun h0 =>
      hs (BitVec.eq_of_toNat_eq h0)
    simp only [signNeg, true_eq_decide_iff]
    omega

theorem append_unpackMantissa_toNat (b : BitVec 32) :
    (1#1 ++ @unpackMantissa Format.binary32 b).toNat = b.toNat % 2 ^ 23 + 2 ^ 23 := by
  have hb := (@unpackMantissa Format.binary32 b).isLt
  rw [BitVec.toNat_append, ← unpackMantissa_toNat, ← Nat.shiftLeft_add_eq_or_of_lt hb]
  simp [Nat.shiftLeft_eq]
  omega

theorem unpackExponent_eq_allOnes (b : BitVec 32) :
    @unpackExponent Format.binary32 b = -1#8 ↔
      b.toNat / 2 ^ 23 % 2 ^ 8 = 255 := by
  rw [← BitVec.toNat_inj, unpackExponent_toNat]
  rfl

theorem unpackExponent_eq_zero (b : BitVec 32) :
    @unpackExponent Format.binary32 b = 0#8 ↔
      b.toNat / 2 ^ 23 % 2 ^ 8 = 0 := by
  rw [← BitVec.toNat_inj, unpackExponent_toNat]
  rfl

theorem unpackMantissa_eq_zero (b : BitVec 32) :
    @unpackMantissa Format.binary32 b = 0#23 ↔
      b.toNat % 2 ^ 23 = 0 := by
  rw [← BitVec.toNat_inj, unpackMantissa_toNat]
  rfl

theorem decode_toNat (b : BitVec 32) :
    BinaryFormat.single.decode b.toNat = Decoded.ofUnpacked (unpack Format.binary32 b) := by
  have hlt := b.isLt
  have hmod : b.toNat % (2 * 2 ^ (23 + 8)) = b.toNat := Nat.mod_eq_of_lt (by omega)
  unfold UnpackedFloat.unpack BinaryFormat.decode
  simp only [BinaryFormat.single, BinaryFormat.signBit, BinaryFormat.hidden, BinaryFormat.topField,
    BinaryFormat.minExp, BinaryFormat.bias, Nat.pow_eq, hmod, Nat.reduceAdd]
  by_cases htop : b.toNat / 2 ^ 23 % 2 ^ 8 = 255
  · simp only [(unpackExponent_eq_allOnes b).2 htop, htop, ↓reduceIte]
    by_cases hz : b.toNat % 2 ^ 23 = 0
    · simp only [(unpackMantissa_eq_zero b).2 hz, hz, ↓reduceIte, Decoded.ofUnpacked,
        sign_ofBitVec_unpackSign]
    · simp only [(unpackMantissa_eq_zero b).not.2 hz, hz, ↓reduceIte]
      rfl
  · simp only [(unpackExponent_eq_allOnes b).not.2 htop,
      show ¬ b.toNat / 2 ^ 23 % 2 ^ 8 = 2 ^ 8 - 1 from htop, ↓reduceIte]
    by_cases hsub : b.toNat / 2 ^ 23 % 2 ^ 8 = 0
    · simp only [(unpackExponent_eq_zero b).2 hsub, hsub, ↓reduceIte]
      by_cases hz : b.toNat % 2 ^ 23 = 0
      · simp only [(unpackMantissa_eq_zero b).2 hz, hz, ↓reduceDIte, Decoded.ofUnpacked,
          sign_ofBitVec_unpackSign, BinaryFormat.single, BinaryFormat.minExp, BinaryFormat.bias,
          Nat.pow_eq]
      · simp only [(unpackMantissa_eq_zero b).not.2 hz, ↓reduceDIte, Decoded.ofUnpacked,
          sign_ofBitVec_unpackSign, unpackMantissa_toNat, Format.exponentBias]
        norm_num
    · simp only [(unpackExponent_eq_zero b).not.2 hsub, hsub, ↓reduceIte, Decoded.ofUnpacked,
        sign_ofBitVec_unpackSign, unpackExponent_toNat, Format.exponentBias,
        Decoded.finite.injEq, true_and]
      exact ⟨(append_unpackMantissa_toNat b).symm, by omega⟩

theorem unpackSign_packComponents (s : Sign) (ex : BitVec Format.binary32.exponentBits)
    (m : BitVec Format.binary32.mantissaBitsWithoutImplicit) :
    unpackSign (packComponents Format.binary32 s ex m) = s.toBitVec := by
  apply BitVec.eq_of_toNat_eq
  have hex : ex.toNat < 2 ^ 8 := ex.isLt
  have hm : m.toNat < 2 ^ 23 := m.isLt
  have hs : s.toBitVec.toNat < 2 := s.toBitVec.isLt
  simp only [unpackSign, packComponents, BitVec.toNat_cast, BitVec.extractLsb_toNat,
    BitVec.toNat_append]
  rw [← Nat.shiftLeft_add_eq_or_of_lt hex, ← Nat.shiftLeft_add_eq_or_of_lt hm]
  simp only [Nat.shiftLeft_eq, Nat.shiftRight_eq_div_pow]
  omega

theorem ofBitVec_toBitVec (s : Sign) : Sign.ofBitVec s.toBitVec = s := by
  cases s <;> rfl

theorem unpack_pack_normal (s : Sign) (m : Nat) (e : Int) (hp : 0 < m) (hlo : 2 ^ 23 ≤ m)
    (hhi : m < 2 ^ 24) (he : -149 ≤ e) (he' : e ≤ 104) :
    unpack Format.binary32 (pack Format.binary32 (.finite s m e hp)) = .finite s m e hp := by
  have hlog : m.log2 = 23 := (Nat.log2_eq_iff (by omega)).2 ⟨hlo, hhi⟩
  unfold UnpackedFloat.pack
  simp only [hlog, Format.exponentBias, Format.mantissaBits]
  norm_num
  rw [if_neg (by omega)]
  unfold UnpackedFloat.unpack
  simp only [unpackExponent_packComponents, unpackMantissa_packComponents,
    unpackSign_packComponents, ofBitVec_toBitVec]
  have hE : (e + 127 + 23).toNat < 255 := by omega
  have hE' : 0 < (e + 127 + 23).toNat := by omega
  rw [if_neg (fun h => by have := congrArg BitVec.toNat h; simp at this; omega),
    if_neg (fun h => by have := congrArg BitVec.toNat h; simp at this; omega)]
  simp only [UnpackedFloat.finite.injEq, true_and, BitVec.toNat_append, BitVec.toNat_ofNat,
    Format.exponentBias]
  constructor
  · rw [← Nat.shiftLeft_add_eq_or_of_lt (Nat.mod_lt _ (by omega)), Nat.shiftLeft_eq]
    omega
  · omega

theorem unpack_pack_subnormal (s : Sign) (m : Nat) (hp : 0 < m) (hm : m < 2 ^ 23) :
    unpack Format.binary32 (pack Format.binary32 (.finite s m (-149) hp)) =
      .finite s m (-149) hp := by
  have hlog : m.log2 < 23 := (Nat.log2_lt (by omega)).2 hm
  unfold UnpackedFloat.pack
  simp only [Format.exponentBias, Format.mantissaBits]
  norm_num
  rw [if_neg (by omega)]
  unfold UnpackedFloat.unpack
  simp only [unpackExponent_packComponents, unpackMantissa_packComponents,
    unpackSign_packComponents, ofBitVec_toBitVec]
  have hne : BitVec.ofNat 23 m ≠ 0#23 := fun h => by
    have := congrArg BitVec.toNat h
    simp only [BitVec.toNat_ofNat, Nat.mod_eq_of_lt hm] at this
    omega
  rw [if_neg (by decide), if_pos trivial, dif_neg hne]
  simp only [UnpackedFloat.finite.injEq, true_and, BitVec.toNat_ofNat, Nat.mod_eq_of_lt hm,
    Format.exponentBias]
  norm_num

theorem BinaryFormat.decode_finite_shape {f : BinaryFormat} {n : Nat} {neg : Bool} {m : Nat}
    {e : Int} (h : f.decode n = .finite neg m e) :
    (f.hidden ≤ m ∧ m < 2 * f.hidden ∧ f.minExp ≤ e ∧ e ≤ f.maxExp) ∨
      (m < f.hidden ∧ e = f.minExp) := by
  have hpos : 0 < f.hidden := Nat.pow_pos (by norm_num)
  have hf : n % f.hidden < f.hidden := Nat.mod_lt _ hpos
  have hx : n / f.hidden % Nat.pow 2 f.expBits < Nat.pow 2 f.expBits :=
    Nat.mod_lt _ (Nat.pow_pos (by norm_num))
  unfold BinaryFormat.decode at h
  dsimp only at h
  split_ifs at h with htop hsub
  · obtain ⟨-, rfl, rfl⟩ := Decoded.finite.inj h
    exact .inr ⟨hf, rfl⟩
  · obtain ⟨-, rfl, rfl⟩ := Decoded.finite.inj h
    left
    unfold BinaryFormat.topField at htop
    unfold BinaryFormat.minExp BinaryFormat.maxExp BinaryFormat.topField
    refine ⟨by omega, by omega, by omega, ?_⟩
    have : n / f.hidden % Nat.pow 2 f.expBits ≤ Nat.pow 2 f.expBits - 1 - 1 := by omega
    omega

/-- The finite values a single unpacks to: a significand below `2^24`, an exponent in
`[-149, 104]`, and the hidden bit set unless the exponent is the lowest. -/
def Canonical (m : Nat) (e : Int) : Prop :=
  m < 2 ^ 24 ∧ -149 ≤ e ∧ e ≤ 104 ∧ (2 ^ 23 ≤ m ∨ e = -149)

theorem unpack_pack_canonical (s : Sign) {m : Nat} {e : Int} (hp : 0 < m) (hc : Canonical m e) :
    unpack Format.binary32 (pack Format.binary32 (.finite s m e hp)) = .finite s m e hp := by
  obtain ⟨hhi, he, he', hlo | rfl⟩ := hc
  · exact unpack_pack_normal s m e hp hlo hhi he he'
  · by_cases hlo : 2 ^ 23 ≤ m
    · exact unpack_pack_normal s m _ hp hlo hhi he he'
    · exact unpack_pack_subnormal s m hp (by omega)

theorem canonical_of_decode {n : Nat} {neg : Bool} {m : Nat} {e : Int}
    (h : BinaryFormat.single.decode n = .finite neg m e) : Canonical m e := by
  have hh : BinaryFormat.single.hidden = 2 ^ 23 := rfl
  have hmin : BinaryFormat.single.minExp = -149 := by decide
  have hmax : BinaryFormat.single.maxExp = 104 := by decide
  rcases BinaryFormat.decode_finite_shape h with ⟨hlo, hhi, he, he'⟩ | ⟨hm, he⟩
  · rw [hh] at hlo hhi
    rw [hmin] at he
    rw [hmax] at he'
    exact ⟨by omega, he, he', .inl hlo⟩
  · rw [hh] at hm
    rw [hmin] at he
    exact ⟨by omega, by omega, by omega, .inr he⟩

theorem ofUnpacked_eq_finite {u : UnpackedFloat} {neg : Bool} {m : Nat} {e : Int} (hm : 0 < m)
    (h : Decoded.ofUnpacked u = .finite neg m e) :
    ∃ s hp, signNeg s = neg ∧ u = .finite s m e hp := by
  cases u with
  | notANumber => cases h
  | infinity s => cases h
  | zero s =>
    obtain ⟨-, rfl, -⟩ := Decoded.finite.inj h
    omega
  | finite s m' e' hp =>
    obtain ⟨rfl, rfl, rfl⟩ := Decoded.finite.inj h
    exact ⟨s, hp, rfl, rfl⟩

theorem unpack_pack_unpack (b : BitVec 32) :
    unpack Format.binary32 (pack Format.binary32 (unpack Format.binary32 b)) =
      unpack Format.binary32 b := by
  have hd := decode_toNat b
  generalize unpack Format.binary32 b = u at hd ⊢
  cases u with
  | notANumber | infinity _ | zero _ =>
    simp [UnpackedFloat.pack, packedNaN, packedInfinity, packedZero, UnpackedFloat.unpack,
      unpackExponent_packComponents, unpackMantissa_packComponents]
  | finite s m e hp => exact unpack_pack_canonical s hp (canonical_of_decode hd)

theorem eq_of_unpack_eq {x y : Float32} (h : x.toModel.unpack = y.toModel.unpack) : x = y :=
  calc x = Float32.ofBits x.toBits := (Float32.ofBits_toBits x).symm
    _ = ⟨Float32.Model.pack x.toModel.unpack⟩ := rfl
    _ = ⟨Float32.Model.pack y.toModel.unpack⟩ := by rw [h]
    _ = Float32.ofBits y.toBits := rfl
    _ = y := Float32.ofBits_toBits y

theorem decodeSingle_eq (x : Float32) :
    decodeSingle x = Decoded.ofUnpacked x.toModel.unpack :=
  decode_toNat x.toModel.toBits.toBitVec

theorem signNeg_injective : Function.Injective signNeg := by
  intro a b h
  cases a <;> cases b <;> first | rfl | cases h

theorem ofUnpacked_injective : Function.Injective Decoded.ofUnpacked := by
  intro u w h
  cases u <;> cases w <;> simp only [Decoded.ofUnpacked, reduceCtorEq, Decoded.infinite.injEq,
    Decoded.finite.injEq] at h
  case notANumber.notANumber => rfl
  case infinity.infinity s s' => rw [signNeg_injective h]
  case zero.zero s s' => rw [signNeg_injective h.1]
  case zero.finite s s' m e hp => omega
  case finite.zero s m e hp s' => omega
  case finite.finite s m e hp s' m' e' hp' =>
    obtain ⟨hs, rfl, rfl⟩ := h
    rw [signNeg_injective hs]

/-- A single is determined by how it decodes: the float model keeps one NaN, so even NaNs
agree. -/
theorem decodeSingle_injective : Function.Injective decodeSingle := by
  intro x y h
  rw [decodeSingle_eq, decodeSingle_eq] at h
  exact eq_of_unpack_eq (ofUnpacked_injective h)

theorem decodeSingle_singleOfBits {n : Nat} (hn : n < 2 ^ 32) :
    decodeSingle (singleOfBits n) = BinaryFormat.single.decode n := by
  have h := decode_toNat (UInt32.ofNat n).toBitVec
  rw [decodeSingle_eq]
  change Decoded.ofUnpacked (unpack Format.binary32
    (pack Format.binary32 (unpack Format.binary32 (UInt32.ofNat n).toBitVec))) = _
  rw [unpack_pack_unpack, ← h]
  congr 1
  exact UInt32.toNat_ofNat_of_lt hn
end PointerAccel.Binary
