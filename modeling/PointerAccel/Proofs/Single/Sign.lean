import Mathlib
import PointerAccel.Proofs.Single.Positive
import PointerAccel.Proofs.Single.Integer

/-!
# Signs in single arithmetic

Round to nearest even does not look at the sign: the float model rounds a magnitude and
attaches the sign afterwards. Negation therefore commutes with every operation, exactly for
products, and up to the sign of a zero for sums and differences, where an exact cancellation
gives `+0` whatever the operands' signs. Sums are also commutative, bit for bit.

* `neg_mul`, `mul_neg`, `neg_mul_neg_self`, `add_comm`: exact identities of singles;
* `SameValue`: equal as numbers, zeros of both signs identified (NaN is one value in the
  model); every operation respects it, and `neg_add_neg`, `neg_sub_neg` hold up to it;
* `decodeSingle_neg`, `roundAway_neg`, `singleOfInt_neg`: the bit-level readings and
  conversions of the engine commute with negation.
-/

namespace PointerAccel.Binary

open Float.Model Float.Model.UnpackedFloat

/-! ## Signs -/

theorem sign_neg_neg (a : Sign) : -(-a) = a := by cases a <;> rfl

theorem sign_neg_mul (a b : Sign) : (-a) * b = -(a * b) := by cases a <;> cases b <;> rfl

theorem sign_mul_neg (a b : Sign) : a * (-b) = -(a * b) := by cases a <;> cases b <;> rfl

/-! ## Unpacked values -/

section Unpacked

variable (spec : Format)

theorem unpacked_neg_neg (u : UnpackedFloat) : u.neg.neg = u := by
  cases u <;> simp [UnpackedFloat.neg, sign_neg_neg]

theorem roundWithAccuracy_neg (s : Sign) (m : Nat) (e : Int) (acc : Accuracy) :
    roundWithAccuracy spec (-s) m e acc = (roundWithAccuracy spec s m e acc).neg := by
  unfold roundWithAccuracy
  obtain ⟨em, e₁⟩ := shiftToTargetExponent spec m e acc
  obtain ⟨fm, fe⟩ := shiftToTargetExponent spec em.roundedMantissa e₁ .exact
  dsimp only
  split_ifs <;> rfl

theorem round_neg (s : Sign) (m : Nat) (e : Int) :
    UnpackedFloat.round spec (-s) m e = (UnpackedFloat.round spec s m e).neg := by
  unfold UnpackedFloat.round
  exact roundWithAccuracy_neg spec _ _ _ _

theorem normalize_neg {M : Int} (hM : M ≠ 0) (e : Int) (z : Sign) :
    UnpackedFloat.normalize spec (-M) e z = (UnpackedFloat.normalize spec M e z).neg := by
  unfold UnpackedFloat.normalize
  rcases lt_trichotomy M 0 with h | h | h
  · rw [compare_gt_iff_gt.2 (Int.neg_pos_of_neg h), compare_lt_iff_lt.2 h]
    dsimp only
    rw [← round_neg]
    rfl
  · exact absurd h hM
  · rw [compare_lt_iff_lt.2 (Int.neg_neg_of_pos h), compare_gt_iff_gt.2 h]
    dsimp only
    rw [← round_neg, neg_neg]
    rfl

theorem mul_neg_left (u w : UnpackedFloat) : mul spec u.neg w = (mul spec u w).neg := by
  cases u <;> cases w <;>
    simp only [UnpackedFloat.neg, UnpackedFloat.mul, sign_neg_mul, roundWithAccuracy_neg]

theorem mul_neg_right (u w : UnpackedFloat) : mul spec u w.neg = (mul spec u w).neg := by
  cases u <;> cases w <;>
    simp only [UnpackedFloat.neg, UnpackedFloat.mul, sign_mul_neg, roundWithAccuracy_neg]

theorem mul_self_neg (u : UnpackedFloat) : mul spec u.neg u.neg = mul spec u u := by
  rw [mul_neg_left, mul_neg_right, unpacked_neg_neg]

theorem add_comm_unpacked (u w : UnpackedFloat) : add spec u w = add spec w u := by
  cases u <;> cases w <;> simp only [UnpackedFloat.add]
  case infinity.infinity s s' => cases s <;> cases s' <;> rfl
  case zero.zero s s' => cases s <;> cases s' <;> rfl
  case finite.finite s m e hp s' m' e' hp' => rw [min_comm e' e, Int.add_comm]

end Unpacked

/-! ## Values up to the sign of zero -/

/-- An unpacked value with the sign of a zero forgotten: what a comparison as numbers sees. -/
def dropZeroSign : UnpackedFloat → UnpackedFloat
  | .zero _ => .zero .positive
  | u => u

theorem dropZeroSign_eq_iff {u w : UnpackedFloat} :
    dropZeroSign u = dropZeroSign w ↔ u = w ∨ ∃ s s', u = .zero s ∧ w = .zero s' := by
  constructor
  · intro h
    cases u <;> cases w <;> simp_all [dropZeroSign]
  · rintro (rfl | ⟨s, s', rfl, rfl⟩) <;> rfl

section Unsigned

variable (spec : Format)

theorem add_dropZeroSign_left (u w : UnpackedFloat) :
    dropZeroSign (add spec (dropZeroSign u) w) = dropZeroSign (add spec u w) := by
  cases u <;> cases w <;> simp only [dropZeroSign, UnpackedFloat.add]
  all_goals split_ifs <;> rfl

theorem add_dropZeroSign_right (u w : UnpackedFloat) :
    dropZeroSign (add spec u (dropZeroSign w)) = dropZeroSign (add spec u w) := by
  rw [add_comm_unpacked, add_dropZeroSign_left, add_comm_unpacked]

theorem sub_dropZeroSign_left (u w : UnpackedFloat) :
    dropZeroSign (sub spec (dropZeroSign u) w) = dropZeroSign (sub spec u w) := by
  cases u <;> cases w <;> simp only [dropZeroSign, UnpackedFloat.sub]
  all_goals split_ifs <;> rfl

theorem sub_dropZeroSign_right (u w : UnpackedFloat) :
    dropZeroSign (sub spec u (dropZeroSign w)) = dropZeroSign (sub spec u w) := by
  cases u <;> cases w <;> simp only [dropZeroSign, UnpackedFloat.sub]
  all_goals split_ifs <;> rfl

theorem mul_dropZeroSign_left (u w : UnpackedFloat) :
    dropZeroSign (mul spec (dropZeroSign u) w) = dropZeroSign (mul spec u w) := by
  cases u <;> cases w <;> rfl

theorem mul_dropZeroSign_right (u w : UnpackedFloat) :
    dropZeroSign (mul spec u (dropZeroSign w)) = dropZeroSign (mul spec u w) := by
  cases u <;> cases w <;> rfl

theorem neg_dropZeroSign (u : UnpackedFloat) :
    dropZeroSign (dropZeroSign u).neg = dropZeroSign u.neg := by
  cases u <;> rfl

theorem mul_self_dropZeroSign (u : UnpackedFloat) :
    mul spec (dropZeroSign u) (dropZeroSign u) = mul spec u u := by
  cases u with
  | zero s => simp only [dropZeroSign, UnpackedFloat.mul, sign_mul_self]
  | _ => rfl

theorem add_neg_neg (u w : UnpackedFloat) :
    dropZeroSign (add spec u.neg w.neg) = dropZeroSign (add spec u w).neg := by
  cases u <;> cases w <;> simp only [dropZeroSign, UnpackedFloat.add, UnpackedFloat.neg]
  case infinity.infinity s s' => cases s <;> cases s' <;> rfl
  case zero.zero s s' => cases s <;> cases s' <;> rfl
  case finite.finite s m e hp s' m' e' hp' =>
    rw [sign_apply_neg, sign_apply_neg, ← neg_add]
    generalize s.apply _ + s'.apply _ = M
    by_cases hM : M = 0
    · subst hM
      rfl
    · rw [normalize_neg spec hM]
      rfl

theorem sub_neg_neg (u w : UnpackedFloat) :
    dropZeroSign (sub spec u.neg w.neg) = dropZeroSign (sub spec u w).neg := by
  cases u <;> cases w <;> simp only [dropZeroSign, UnpackedFloat.sub, UnpackedFloat.neg]
  case infinity.infinity s s' => cases s <;> cases s' <;> rfl
  case zero.zero s s' => cases s <;> cases s' <;> rfl
  case finite.finite s m e hp s' m' e' hp' =>
    rw [sign_apply_neg, sign_apply_neg, ← neg_sub']
    generalize s.apply _ - s'.apply _ = M
    by_cases hM : M = 0
    · subst hM
      rfl
    · rw [normalize_neg spec hM]
      rfl

end Unsigned

/-! ## Packing -/

theorem unpack_packComponents_neg (s : Sign) (ex : BitVec Format.binary32.exponentBits)
    (m : BitVec Format.binary32.mantissaBitsWithoutImplicit) :
    unpack Format.binary32 (packComponents Format.binary32 (-s) ex m) =
      (unpack Format.binary32 (packComponents Format.binary32 s ex m)).neg := by
  unfold UnpackedFloat.unpack
  simp only [unpackExponent_packComponents, unpackMantissa_packComponents,
    unpackSign_packComponents, ofBitVec_toBitVec]
  split_ifs <;> rfl

theorem unpack_pack_neg (u : UnpackedFloat) :
    unpack Format.binary32 (pack Format.binary32 u.neg) =
      (unpack Format.binary32 (pack Format.binary32 u)).neg := by
  cases u with
  | notANumber =>
    simp [UnpackedFloat.neg, UnpackedFloat.pack, packedNaN, UnpackedFloat.unpack,
      unpackExponent_packComponents, unpackMantissa_packComponents]
  | infinity s => exact unpack_packComponents_neg s _ _
  | zero s => exact unpack_packComponents_neg s _ _
  | finite s m e hp =>
    simp only [UnpackedFloat.neg, UnpackedFloat.pack, packedInfinity]
    split_ifs <;> exact unpack_packComponents_neg s _ _

theorem dropZeroSign_unpack_pack {u w : UnpackedFloat} (h : dropZeroSign u = dropZeroSign w) :
    dropZeroSign (unpack Format.binary32 (pack Format.binary32 u)) =
      dropZeroSign (unpack Format.binary32 (pack Format.binary32 w)) := by
  rcases dropZeroSign_eq_iff.1 h with rfl | ⟨s, s', rfl, rfl⟩
  · rfl
  · rw [unpack_pack_zero, unpack_pack_zero]
    rfl

/-! ## Singles -/

section Singles

variable {x y x' y' : Float32}

theorem unpack_neg (x : Float32) : (-x).toModel.unpack = x.toModel.unpack.neg := by
  change unpack Format.binary32 (pack Format.binary32 x.toModel.unpack.neg) = _
  rw [unpack_pack_neg]
  exact congrArg UnpackedFloat.neg (unpack_pack_unpack _)

theorem neg_neg_single (x : Float32) : -(-x) = x :=
  eq_of_unpack_eq (by rw [unpack_neg, unpack_neg, unpacked_neg_neg])

theorem neg_mul (x y : Float32) : (-x) * y = -(x * y) :=
  eq_of_unpack_eq (by
    rw [unpack_neg, unpack_mul, unpack_mul, unpack_neg, mul_neg_left, unpack_pack_neg])

theorem mul_neg (x y : Float32) : x * (-y) = -(x * y) :=
  eq_of_unpack_eq (by
    rw [unpack_neg, unpack_mul, unpack_mul, unpack_neg, mul_neg_right, unpack_pack_neg])

theorem neg_mul_neg_self (x : Float32) : (-x) * (-x) = x * x :=
  eq_of_unpack_eq (by rw [unpack_mul, unpack_mul, unpack_neg, mul_self_neg])

theorem add_comm (x y : Float32) : x + y = y + x :=
  eq_of_unpack_eq (by rw [unpack_add, unpack_add, add_comm_unpacked])

/-- Two singles with the same value as numbers: equal, or zeros of either sign. -/
def SameValue (x y : Float32) : Prop :=
  dropZeroSign x.toModel.unpack = dropZeroSign y.toModel.unpack

theorem SameValue.refl (x : Float32) : SameValue x x := rfl

theorem SameValue.symm (h : SameValue x y) : SameValue y x := Eq.symm h

theorem SameValue.trans {z : Float32} (h : SameValue x y) (h' : SameValue y z) : SameValue x z :=
  Eq.trans h h'

theorem sameValue_iff : SameValue x y ↔ x = y ∨ (IsZero x ∧ IsZero y) := by
  unfold SameValue IsZero
  rw [dropZeroSign_eq_iff]
  constructor
  · rintro (h | ⟨s, s', hx, hy⟩)
    · exact .inl (eq_of_unpack_eq h)
    · exact .inr ⟨⟨s, hx⟩, ⟨s', hy⟩⟩
  · rintro (rfl | ⟨⟨s, hx⟩, ⟨s', hy⟩⟩)
    · exact .inl rfl
    · exact .inr ⟨s, s', hx, hy⟩

theorem SameValue.of_isZero (hx : IsZero x) (hy : IsZero y) : SameValue x y :=
  sameValue_iff.2 (.inr ⟨hx, hy⟩)

theorem SameValue.add (hx : SameValue x x') (hy : SameValue y y') :
    SameValue (x + y) (x' + y') := by
  unfold SameValue at *
  rw [unpack_add, unpack_add]
  apply dropZeroSign_unpack_pack
  rw [← add_dropZeroSign_left, ← add_dropZeroSign_right, hx, hy, add_dropZeroSign_right,
    add_dropZeroSign_left]

theorem SameValue.sub (hx : SameValue x x') (hy : SameValue y y') :
    SameValue (x - y) (x' - y') := by
  unfold SameValue at *
  rw [unpack_sub, unpack_sub]
  apply dropZeroSign_unpack_pack
  rw [← sub_dropZeroSign_left, ← sub_dropZeroSign_right, hx, hy, sub_dropZeroSign_right,
    sub_dropZeroSign_left]

theorem SameValue.mul (hx : SameValue x x') (hy : SameValue y y') :
    SameValue (x * y) (x' * y') := by
  unfold SameValue at *
  rw [unpack_mul, unpack_mul]
  apply dropZeroSign_unpack_pack
  rw [← mul_dropZeroSign_left, ← mul_dropZeroSign_right, hx, hy, mul_dropZeroSign_right,
    mul_dropZeroSign_left]

theorem SameValue.neg (h : SameValue x y) : SameValue (-x) (-y) := by
  unfold SameValue at *
  rw [unpack_neg, unpack_neg, ← neg_dropZeroSign, h, neg_dropZeroSign]

theorem SameValue.mul_self (h : SameValue x y) : x * x = y * y := by
  unfold SameValue at h
  exact eq_of_unpack_eq (by
    rw [unpack_mul, unpack_mul, ← mul_self_dropZeroSign, h, mul_self_dropZeroSign])

theorem neg_add_neg (x y : Float32) : SameValue ((-x) + (-y)) (-(x + y)) := by
  unfold SameValue
  rw [unpack_add, unpack_neg, unpack_neg, unpack_neg, unpack_add, ← unpack_pack_neg]
  exact dropZeroSign_unpack_pack (add_neg_neg _ _ _)

theorem neg_sub_neg (x y : Float32) : SameValue ((-x) - (-y)) (-(x - y)) := by
  unfold SameValue
  rw [unpack_sub, unpack_neg, unpack_neg, unpack_neg, unpack_sub, ← unpack_pack_neg]
  exact dropZeroSign_unpack_pack (sub_neg_neg _ _ _)

end Singles

/-! ## Readings of negated singles -/

section Readings

open BinaryFormat

/-- A decoded value with its sign flipped; NaN has none. -/
def Decoded.neg : Decoded → Decoded
  | .nan => .nan
  | .infinite n => .infinite (!n)
  | .finite n m e => .finite (!n) m e

theorem ofUnpacked_neg (u : UnpackedFloat) :
    Decoded.ofUnpacked u.neg = (Decoded.ofUnpacked u).neg := by
  cases u with
  | notANumber => rfl
  | infinity s => cases s <;> rfl
  | zero s => cases s <;> rfl
  | finite s m e hp => cases s <;> rfl

theorem decodeSingle_neg (x : Float32) : decodeSingle (-x) = (decodeSingle x).neg := by
  rw [decodeSingle_eq, decodeSingle_eq, unpack_neg, ofUnpacked_neg]

theorem toRat_neg (d : Decoded) : d.neg.toRat = -d.toRat := by
  cases d with
  | finite n m e => cases n <;> simp [Decoded.neg, Decoded.toRat]
  | _ => simp [Decoded.neg, Decoded.toRat]

theorem truncInt_neg (d : Decoded) : d.neg.truncInt = -d.truncInt := by
  cases d with
  | finite n m e => cases n <;> simp [Decoded.neg, Decoded.truncInt]
  | _ => rfl

theorem singleRat_neg (x : Float32) : singleRat (-x) = -singleRat x := by
  rw [singleRat, singleRat, decodeSingle_neg, toRat_neg]

theorem isFinite_neg (x : Float32) : (-x).isFinite = x.isFinite := by
  rw [isFinite_eq_unpack, isFinite_eq_unpack, unpack_neg]
  cases x.toModel.unpack <;> rfl

theorem isZero_of_decodeSingle {x : Float32} {n : Bool} {e : Int}
    (h : decodeSingle x = .finite n 0 e) : IsZero x :=
  ofUnpacked_eq_zero (by rw [← decodeSingle_eq]; exact h)

theorem IsZero.neg {x : Float32} (h : IsZero x) : IsZero (-x) := by
  obtain ⟨s, hs⟩ := h
  exact ⟨-s, by rw [unpack_neg, hs]; rfl⟩

theorem IsZero.truncInt {x : Float32} (h : IsZero x) : (decodeSingle x).truncInt = 0 := by
  obtain ⟨s, hs⟩ := h
  rw [decodeSingle_eq, hs]
  cases s <;> rfl

theorem SameValue.truncInt {x y : Float32} (h : SameValue x y) :
    (decodeSingle x).truncInt = (decodeSingle y).truncInt := by
  rcases sameValue_iff.1 h with rfl | ⟨hx, hy⟩
  · rfl
  · rw [hx.truncInt, hy.truncInt]

theorem decode_signBit_add (b : Nat) :
    single.decode (single.signBit + b) = (single.decode b).neg := by
  have hsb : single.signBit = 2147483648 := rfl
  have hh : single.hidden = 8388608 := rfl
  have hx : Nat.pow 2 single.expBits = 256 := rfl
  unfold BinaryFormat.decode
  rw [hsb, hh, hx]
  have h₁ : (2147483648 + b) / 8388608 % 256 = b / 8388608 % 256 := by omega
  have h₂ : (2147483648 + b) % 8388608 = b % 8388608 := by omega
  have h₃ : decide (2147483648 ≤ (2147483648 + b) % (2 * 2147483648)) =
      !decide (2147483648 ≤ b % (2 * 2147483648)) := by
    by_cases h : 2147483648 ≤ b % (2 * 2147483648) <;> simp only [h, decide_true,
      decide_false, Bool.not_true, Bool.not_false, decide_eq_true_eq, decide_eq_false_iff_not] <;>
      omega
  simp only [h₁, h₂, h₃]
  split_ifs <;> rfl

theorem decode_mod_single (n : Nat) : single.decode (n % 2 ^ 32) = single.decode n := by
  have hsb : single.signBit = 2147483648 := rfl
  have hh : single.hidden = 8388608 := rfl
  have hx : Nat.pow 2 single.expBits = 256 := rfl
  unfold BinaryFormat.decode
  rw [hsb, hh, hx]
  have h₁ : n % 2 ^ 32 / 8388608 % 256 = n / 8388608 % 256 := by omega
  have h₂ : n % 2 ^ 32 % 8388608 = n % 8388608 := by omega
  have h₃ : n % 2 ^ 32 % (2 * 2147483648) = n % (2 * 2147483648) := by omega
  simp only [h₁, h₂, h₃]

theorem decodeSingle_singleOfBits_mod (n : Nat) :
    decodeSingle (singleOfBits n) = single.decode n := by
  have h : singleOfBits n = singleOfBits (n % 2 ^ 32) := by
    unfold singleOfBits
    congr 1
    apply UInt32.toNat_inj.1
    simp
  rw [h, decodeSingle_singleOfBits (Nat.mod_lt _ (by norm_num)), decode_mod_single]

theorem singleOfBits_signBit_add (b : Nat) : singleOfBits (single.signBit + b) = -singleOfBits b :=
  decodeSingle_injective (by
    rw [decodeSingle_neg, decodeSingle_singleOfBits_mod, decodeSingle_singleOfBits_mod,
      decode_signBit_add])

theorem roundRat_true (num den : Nat) :
    single.roundRat true num den = single.signBit + single.roundRat false num den := by
  unfold BinaryFormat.roundRat BinaryFormat.pack
  simp only [↓reduceIte, Bool.false_eq_true, Nat.zero_add]
  split_ifs <;> omega

theorem singleOfBits_roundRat_not (n : Bool) (num den : Nat) :
    singleOfBits (single.roundRat (!n) num den) = -singleOfBits (single.roundRat n num den) := by
  cases n
  · rw [Bool.not_false, roundRat_true, singleOfBits_signBit_add]
  · rw [Bool.not_true, roundRat_true, singleOfBits_signBit_add, neg_neg_single]

theorem singleOfInt_neg (z : Int) : SameValue (singleOfInt (-z)) (-singleOfInt z) := by
  unfold singleOfInt BinaryFormat.roundInt
  rcases eq_or_ne z 0 with rfl | hz
  · have h := isZero_of_decodeSingle (decodeSingle_roundRat_zero false)
    exact .of_isZero h h.neg
  · have hsign : decide (-z < 0) = !decide (z < 0) := by
      by_cases h : z < 0 <;> simp only [h, decide_true, decide_false, Bool.not_true,
        Bool.not_false, decide_eq_true_eq, decide_eq_false_iff_not] <;> omega
    rw [hsign, Int.natAbs_neg, singleOfBits_roundRat_not]
    exact .refl _

theorem roundAway_neg (x : Float32) : roundAway (-x) = -roundAway x := by
  unfold roundAway
  rw [decodeSingle_neg]
  cases decodeSingle x with
  | nan => rfl
  | infinite n => rfl
  | finite n m e =>
    simp only [Decoded.neg]
    split_ifs
    · rfl
    · exact singleOfBits_roundRat_not n _ _

theorem roundAway_of_isZero {x : Float32} (h : IsZero x) : IsZero (roundAway x) := by
  obtain ⟨s, hs⟩ := h
  have hd : decodeSingle x = .finite (signNeg s) 0 single.minExp := by
    rw [decodeSingle_eq, hs]
    rfl
  have hmin : single.minExp = -149 := by decide
  unfold roundAway
  rw [hd]
  dsimp only
  rw [hmin, if_neg (by omega), Nat.mul_zero, Nat.zero_add]
  have hd0 : 0 < Nat.pow 2 (-(-149 : Int)).toNat := Nat.pow_pos (by norm_num)
  rw [Nat.div_eq_of_lt (by omega)]
  exact isZero_of_decodeSingle (decodeSingle_roundRat_zero _)

theorem SameValue.roundAway {x y : Float32} (h : SameValue x y) :
    SameValue (roundAway x) (roundAway y) := by
  rcases sameValue_iff.1 h with rfl | ⟨hx, hy⟩
  · exact .refl _
  · exact .of_isZero (roundAway_of_isZero hx) (roundAway_of_isZero hy)

end Readings

end PointerAccel.Binary
