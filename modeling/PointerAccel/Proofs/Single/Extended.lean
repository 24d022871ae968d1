import Mathlib
import PointerAccel.Proofs.Single.Sign

/-!
# Singles on the extended line

A single other than NaN stands for a point of the extended real line: a finite single for its
value, both zeros for zero, and the infinities for the two ends. The float model compares two
such singles as it compares those points, so away from NaN the comparisons `≤` and `<` of
singles are a linear order, in which the two zeros are one point.

* `singleExt`: the point a single stands for (NaN, which stands for none, is sent to zero);
* `compare_ordered`: the model's comparison of two values other than NaN is the comparison of
  their points;
* `le_iff_singleExt_le`, `lt_iff_singleExt_lt`: the order of singles other than NaN;
* `single_le_trans`, `single_le_of_not_lt`, ...: the laws of a linear order, read back on
  singles, with NaN excluded by the comparisons themselves where it can be;
* `neg_le_neg_iff_single`, `SameValue.le_iff`: negation reverses the order, and the sign of a
  zero is invisible to it.
-/

namespace PointerAccel.Binary

open Float.Model Float.Model.UnpackedFloat

/-- The rationals with a least and a greatest point added: the line the values of singles
other than NaN lie on, with the infinities at its ends. -/
abbrev ExtRat := WithBot (WithTop ℚ)

/-- The point of the extended line a decoded single stands for. -/
def Decoded.toExt : Decoded → ExtRat
  | .infinite true => ⊥
  | .infinite false => ⊤
  | d => ((d.toRat : WithTop ℚ) : ExtRat)

/-- The point of the extended line a single stands for; NaN is sent to zero. -/
def singleExt (x : Float32) : ExtRat := (decodeSingle x).toExt

/-- What a single other than NaN unpacks to: a zero or a canonical finite value, or an
infinity. -/
def Ordered (u : UnpackedFloat) : Prop := Canon u ∨ ∃ s, u = .infinity s

theorem singleExt_eq (x : Float32) :
    singleExt x = (Decoded.ofUnpacked x.toModel.unpack).toExt := by
  rw [singleExt, decodeSingle_eq]

theorem isNaN_eq_unpack (x : Float32) : x.isNaN = x.toModel.unpack.isNaN := rfl

theorem ordered_unpack {x : Float32} (hx : x.isNaN = false) : Ordered x.toModel.unpack := by
  have hc : x.isFinite = true → Canon x.toModel.unpack := canon_unpack
  rw [isFinite_eq_unpack] at hc
  rw [isNaN_eq_unpack] at hx
  generalize x.toModel.unpack = u at hx hc
  cases u with
  | notANumber => cases hx
  | infinity s => exact .inr ⟨s, rfl⟩
  | zero _ | finite _ _ _ _ => exact .inl (hc rfl)

theorem toExt_of_canon {u : UnpackedFloat} (hu : Canon u) :
    (Decoded.ofUnpacked u).toExt = (((Decoded.ofUnpacked u).toRat : WithTop ℚ) : ExtRat) := by
  cases u with
  | notANumber | infinity _ => exact hu.elim
  | zero _ | finite _ _ _ _ => rfl

theorem singleExt_of_isFinite {x : Float32} (hx : x.isFinite = true) :
    singleExt x = ((singleRat x : WithTop ℚ) : ExtRat) := by
  rw [singleExt_eq, singleRat_eq, toExt_of_canon (canon_unpack hx)]

theorem compare_coe_rat (a b : ℚ) : compare ((a : WithTop ℚ) : ExtRat) ((b : WithTop ℚ) : ExtRat) = compare a b := by
  rcases lt_trichotomy a b with h | rfl | h
  · rw [compare_lt_iff_lt.2 h, compare_lt_iff_lt.2 (by exact_mod_cast h)]
  · rw [compare_eq_iff_eq.2 rfl, compare_eq_iff_eq.2 rfl]
  · rw [compare_gt_iff_gt.2 h, compare_gt_iff_gt.2 (by exact_mod_cast h)]

@[simp] theorem toExt_negInfinity : (Decoded.ofUnpacked (.infinity .negative)).toExt = ⊥ := rfl

@[simp] theorem toExt_posInfinity : (Decoded.ofUnpacked (.infinity .positive)).toExt = ⊤ := rfl

theorem ExtRat.coe_lt_top (q : ℚ) : ((q : WithTop ℚ) : ExtRat) < ⊤ :=
  WithBot.coe_lt_coe.2 (WithTop.coe_lt_top q)

theorem ExtRat.compare_coe_top (q : ℚ) : compare ((q : WithTop ℚ) : ExtRat) ⊤ = .lt :=
  compare_lt_iff_lt.2 (ExtRat.coe_lt_top q)

theorem ExtRat.compare_top_coe (q : ℚ) : compare ⊤ ((q : WithTop ℚ) : ExtRat) = .gt :=
  compare_gt_iff_gt.2 (ExtRat.coe_lt_top q)

theorem ExtRat.compare_coe_bot (q : ℚ) : compare ((q : WithTop ℚ) : ExtRat) ⊥ = .gt :=
  compare_gt_iff_gt.2 (WithBot.bot_lt_coe _)

theorem ExtRat.compare_bot_coe (q : ℚ) : compare ⊥ ((q : WithTop ℚ) : ExtRat) = .lt :=
  compare_lt_iff_lt.2 (WithBot.bot_lt_coe _)

theorem compare_ordered {u w : UnpackedFloat} (hu : Ordered u) (hw : Ordered w) :
    u.compare w =
      some (compare (Decoded.ofUnpacked u).toExt (Decoded.ofUnpacked w).toExt) := by
  rcases hu with hu | ⟨s, rfl⟩ <;> rcases hw with hw | ⟨s', rfl⟩
  · rw [compare_canon hu hw, toExt_of_canon hu, toExt_of_canon hw, compare_coe_rat]
  · rw [toExt_of_canon hu]
    generalize (Decoded.ofUnpacked u).toRat = q
    cases u with
    | notANumber | infinity _ => exact hu.elim
    | zero _ | finite _ _ _ _ =>
      cases s' <;> simp [UnpackedFloat.compare, ExtRat.compare_coe_top, ExtRat.compare_coe_bot]
  · rw [toExt_of_canon hw]
    generalize (Decoded.ofUnpacked w).toRat = q
    cases w with
    | notANumber | infinity _ => exact hw.elim
    | zero _ | finite _ _ _ _ =>
      cases s <;> simp [UnpackedFloat.compare, ExtRat.compare_top_coe, ExtRat.compare_bot_coe]
  · cases s <;> cases s' <;> decide

theorem compare_notANumber_right (u : UnpackedFloat) : u.compare .notANumber = none := by
  cases u <;> rfl

/-! ## The order of singles -/

section Order

variable {x y z : Float32}

theorem le_iff_singleExt_le (hx : x.isNaN = false) (hy : y.isNaN = false) :
    x ≤ y ↔ singleExt x ≤ singleExt y := by
  rw [le_iff_unpack_le, singleExt_eq, singleExt_eq, UnpackedFloat.le,
    compare_ordered (ordered_unpack hx) (ordered_unpack hy), Option.any_some,
    Std.LawfulBCmp.isLE_iff_le]

theorem lt_iff_singleExt_lt (hx : x.isNaN = false) (hy : y.isNaN = false) :
    x < y ↔ singleExt x < singleExt y := by
  rw [lt_iff_unpack_lt, singleExt_eq, singleExt_eq, UnpackedFloat.lt,
    compare_ordered (ordered_unpack hx) (ordered_unpack hy), beq_iff_eq, Option.some.injEq,
    compare_lt_iff_lt]

theorem isNaN_false_of_le (h : x ≤ y) : x.isNaN = false ∧ y.isNaN = false := by
  rw [le_iff_unpack_le] at h
  rw [isNaN_eq_unpack, isNaN_eq_unpack]
  generalize x.toModel.unpack = u at h
  generalize y.toModel.unpack = w at h
  cases u with
  | notANumber => cases h
  | _ => cases w <;> simp_all [UnpackedFloat.le, compare_notANumber_right, UnpackedFloat.isNaN]

theorem isNaN_false_of_lt (h : x < y) : x.isNaN = false ∧ y.isNaN = false := by
  rw [lt_iff_unpack_lt] at h
  rw [isNaN_eq_unpack, isNaN_eq_unpack]
  generalize x.toModel.unpack = u at h
  generalize y.toModel.unpack = w at h
  cases u with
  | notANumber => cases h
  | _ => cases w <;> simp_all [UnpackedFloat.lt, compare_notANumber_right, UnpackedFloat.isNaN]

theorem single_le_refl (hx : x.isNaN = false) : x ≤ x :=
  (le_iff_singleExt_le hx hx).2 le_rfl

theorem single_le_trans (hxy : x ≤ y) (hyz : y ≤ z) : x ≤ z := by
  obtain ⟨hx, hy⟩ := isNaN_false_of_le hxy
  have hz := (isNaN_false_of_le hyz).2
  rw [le_iff_singleExt_le hx hy] at hxy
  rw [le_iff_singleExt_le hy hz] at hyz
  exact (le_iff_singleExt_le hx hz).2 (hxy.trans hyz)

theorem single_le_of_lt (h : x < y) : x ≤ y := by
  obtain ⟨hx, hy⟩ := isNaN_false_of_lt h
  exact (le_iff_singleExt_le hx hy).2 ((lt_iff_singleExt_lt hx hy).1 h).le

theorem single_lt_of_lt_of_le (hxy : x < y) (hyz : y ≤ z) : x < z := by
  obtain ⟨hx, hy⟩ := isNaN_false_of_lt hxy
  have hz := (isNaN_false_of_le hyz).2
  rw [lt_iff_singleExt_lt hx hy] at hxy
  rw [le_iff_singleExt_le hy hz] at hyz
  exact (lt_iff_singleExt_lt hx hz).2 (hxy.trans_le hyz)

theorem single_le_of_not_lt (hx : x.isNaN = false) (hy : y.isNaN = false) (h : ¬ x < y) :
    y ≤ x := by
  rw [lt_iff_singleExt_lt hx hy, not_lt] at h
  exact (le_iff_singleExt_le hy hx).2 h

theorem single_lt_of_not_le (hx : x.isNaN = false) (hy : y.isNaN = false) (h : ¬ x ≤ y) :
    y < x := by
  rw [le_iff_singleExt_le hx hy, not_le] at h
  exact (lt_iff_singleExt_lt hy hx).2 h

theorem single_not_le_of_lt (h : x < y) : ¬ y ≤ x := by
  obtain ⟨hx, hy⟩ := isNaN_false_of_lt h
  rw [le_iff_singleExt_le hy hx, not_le]
  exact (lt_iff_singleExt_lt hx hy).1 h

end Order

/-! ## Negation and the sign of zero -/

@[simp] theorem toExt_finite (n : Bool) (m : Nat) (e : Int) :
    (Decoded.finite n m e).toExt = (((Decoded.finite n m e).toRat : WithTop ℚ) : ExtRat) := rfl

@[simp] theorem toExt_infinite_true : (Decoded.infinite true).toExt = ⊥ := rfl

@[simp] theorem toExt_infinite_false : (Decoded.infinite false).toExt = ⊤ := rfl

theorem toExt_neg_le_neg_iff {d d' : Decoded} (hd : d ≠ .nan) (hd' : d' ≠ .nan) :
    d.neg.toExt ≤ d'.neg.toExt ↔ d'.toExt ≤ d.toExt := by
  cases d with
  | nan => exact absurd rfl hd
  | infinite n =>
    cases d' with
    | nan => exact absurd rfl hd'
    | infinite n' => cases n <;> cases n' <;> decide
    | finite n' m' e' => cases n <;> simp [Decoded.neg]
  | finite n m e =>
    cases d' with
    | nan => exact absurd rfl hd'
    | infinite n' => cases n' <;> simp [Decoded.neg]
    | finite n' m' e' =>
      simp only [Decoded.neg, toExt_finite]
      rw [← Decoded.neg, ← Decoded.neg, toRat_neg, toRat_neg]
      norm_cast
      exact neg_le_neg_iff

theorem isNaN_neg (x : Float32) : (-x).isNaN = x.isNaN := by
  rw [isNaN_eq_unpack, isNaN_eq_unpack, unpack_neg]
  cases x.toModel.unpack <;> rfl

theorem decodeSingle_ne_nan {x : Float32} (hx : x.isNaN = false) : decodeSingle x ≠ .nan := by
  rw [decodeSingle_eq]
  rw [isNaN_eq_unpack] at hx
  cases hu : x.toModel.unpack <;> simp_all [Decoded.ofUnpacked, UnpackedFloat.isNaN]

theorem neg_le_neg_iff_single {x y : Float32} (hx : x.isNaN = false) (hy : y.isNaN = false) :
    -x ≤ -y ↔ y ≤ x := by
  rw [le_iff_singleExt_le (by rwa [isNaN_neg]) (by rwa [isNaN_neg]), le_iff_singleExt_le hy hx,
    singleExt, singleExt, decodeSingle_neg, decodeSingle_neg,
    toExt_neg_le_neg_iff (decodeSingle_ne_nan hx) (decodeSingle_ne_nan hy)]
  rfl

theorem compare_dropZeroSign (u w : UnpackedFloat) :
    (dropZeroSign u).compare (dropZeroSign w) = u.compare w := by
  cases u with
  | notANumber => rfl
  | infinity s => cases s <;> cases w <;> rfl
  | finite s _ _ _ => cases s <;> cases w <;> rfl
  | zero s =>
    cases w with
    | infinity s' | finite s' _ _ _ => cases s' <;> rfl
    | _ => rfl

theorem SameValue.le_iff {x x' y y' : Float32} (hx : SameValue x x') (hy : SameValue y y') :
    x ≤ y ↔ x' ≤ y' := by
  rw [le_iff_unpack_le, le_iff_unpack_le, UnpackedFloat.le, UnpackedFloat.le,
    ← compare_dropZeroSign, hx, hy, compare_dropZeroSign]

theorem SameValue.lt_iff {x x' y y' : Float32} (hx : SameValue x x') (hy : SameValue y y') :
    x < y ↔ x' < y' := by
  rw [lt_iff_unpack_lt, lt_iff_unpack_lt, UnpackedFloat.lt, UnpackedFloat.lt,
    ← compare_dropZeroSign, hx, hy, compare_dropZeroSign]

theorem isNaN_dropZeroSign (u : UnpackedFloat) : (dropZeroSign u).isNaN = u.isNaN := by
  cases u <;> rfl

theorem SameValue.isNaN_eq {x y : Float32} (h : SameValue x y) : x.isNaN = y.isNaN := by
  rw [isNaN_eq_unpack, isNaN_eq_unpack, ← isNaN_dropZeroSign, h, isNaN_dropZeroSign]

end PointerAccel.Binary
