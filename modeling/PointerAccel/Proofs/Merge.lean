import Mathlib
import PointerAccel.Proofs.Nearest.Round
import PointerAccel.Proofs.Unity

/-!
# Merging rounds the buffered part first

A cycle merges the drained buffer into its sample axis by axis: it converts both integers to
singles and adds the singles. Single addition is correctly rounded: the sum of two nonzero
finite singles is the single nearest to their exact sum, ties to even. So when the buffered sum
converts exactly, as the deltas of a sample that passes the exactness check do, the merge is
the exact integer sum rounded once, as the scaled output is.

The buffer is not checked, though. A sample that fails the exactness check is buffered as it
came, and the merge rounds the buffered sum to a single before it adds the sample: a buffer of
`16777217` becomes `16777216`, and with a sample of `-1` the merge gives `16777215`, where the
single nearest to the exact sum `16777216` is that sum.

* `bitsOf_add`: the bits of a sum of nonzero finite singles are `roundRat`'s for the exact sum;
* `singleOfInt_add_singleOfInt`: two integers that convert exactly add to their sum converted
  once;
* `Engine.merge_rounds_sum_once`: merging is one rounding of the exact sum when the buffer
  converts exactly;
* `Engine.prefaulted_buffer_rounds_twice`: a buffer left by a faulted sample is rounded on its
  own first.
-/

namespace PointerAccel.Binary

open Float.Model Float.Model.UnpackedFloat

theorem singleOfBits_bitsOf (x : Float32) : singleOfBits (bitsOf x) = x := by
  unfold singleOfBits bitsOf
  rw [UInt32.ofNat_toNat, Float32.ofBits_toBits]

theorem bitsOf_add_eq (x y : Float32) :
    bitsOf (x + y) = (UnpackedFloat.pack Format.binary32
      (UnpackedFloat.add Format.binary32 x.toModel.unpack y.toModel.unpack)).toNat := rfl

theorem add_of_nonzero {x y : Float32} (hx : x.isFinite = true) (hy : y.isFinite = true)
    (hx0 : singleRat x ≠ 0) (hy0 : singleRat y ≠ 0) :
    ∃ Z : Int, ∃ d : Int,
      UnpackedFloat.add Format.binary32 x.toModel.unpack y.toModel.unpack =
        UnpackedFloat.normalize Format.binary32 Z d .positive ∧
      (Z : ℚ) * 2 ^ d = singleRat x + singleRat y := by
  have cx := canon_unpack hx
  have cy := canon_unpack hy
  rw [singleRat_eq, singleRat_eq] at *
  generalize x.toModel.unpack = u at cx hx0 ⊢
  generalize y.toModel.unpack = w at cy hy0 ⊢
  cases u with
  | notANumber | infinity _ => exact cx.elim
  | zero _ => exact absurd (ofUnpacked_zero_toRat _) hx0
  | finite s₁ m₁ e₁ h₁ =>
    cases w with
    | notANumber | infinity _ => exact cy.elim
    | zero _ => exact absurd (ofUnpacked_zero_toRat _) hy0
    | finite s₂ m₂ e₂ h₂ =>
      refine ⟨_, min e₁ e₂, add_finite s₁ s₂ m₁ m₂ e₁ e₂ h₁ h₂, ?_⟩
      rw [ofUnpacked_finite_toRat, ofUnpacked_finite_toRat, Int.cast_add, add_mul,
        apply_cast_mul_two_pow_zpow, apply_cast_mul_two_pow_zpow,
        show min e₁ e₂ + ((e₁ - min e₁ e₂).toNat : Int) = e₁ by omega,
        show min e₁ e₂ + ((e₂ - min e₁ e₂).toNat : Int) = e₂ by omega]

theorem mul_two_zpow_neg_iff (Z : Int) (d : Int) : (Z : ℚ) * 2 ^ d < 0 ↔ Z < 0 := by
  have hpos : (0 : ℚ) < 2 ^ d := zpow_pos two_pos d
  constructor
  · intro h
    by_contra hc
    have hZ : (0 : ℚ) ≤ Z := by exact_mod_cast not_lt.mp hc
    exact absurd h (not_lt.mpr (mul_nonneg hZ hpos.le))
  · intro h
    exact mul_neg_of_neg_of_pos (by exact_mod_cast h) hpos

/-- The sum of two nonzero finite singles with a nonzero exact sum is that sum rounded to
nearest, ties to even. -/
theorem bitsOf_add {x y : Float32} (hx : x.isFinite = true) (hy : y.isFinite = true)
    (hx0 : singleRat x ≠ 0) (hy0 : singleRat y ≠ 0) (hs : singleRat x + singleRat y ≠ 0)
    {num den : Nat} (hden : 0 < den) (hv : (num : ℚ) / den = |singleRat x + singleRat y|) :
    bitsOf (x + y) =
      BinaryFormat.single.roundRat (decide (singleRat x + singleRat y < 0)) num den := by
  obtain ⟨Z, d, hadd, hZ⟩ := add_of_nonzero hx hy hx0 hy0
  rw [← hZ] at hs hv ⊢
  have hZ0 : Z ≠ 0 := by
    rintro rfl
    simp at hs
  have hv' : (num : ℚ) / den = Z.natAbs * 2 ^ d := by
    rw [hv, abs_mul, abs_of_pos (zpow_pos (two_pos : (0 : ℚ) < 2) d), Nat.cast_natAbs, Int.cast_abs]
  rw [bitsOf_add_eq, hadd, pack_normalize formatMatch_single hZ0 d .positive hden hv']
  simp only [mul_two_zpow_neg_iff]

theorem unpack_add_cancel {x y : Float32} (hx : x.isFinite = true) (hy : y.isFinite = true)
    (hx0 : singleRat x ≠ 0) (hy0 : singleRat y ≠ 0) (hs : singleRat x + singleRat y = 0) :
    (x + y).toModel.unpack = .zero .positive := by
  obtain ⟨Z, d, hadd, hZ⟩ := add_of_nonzero hx hy hx0 hy0
  have hZ0 : Z = 0 := by
    rw [hs] at hZ
    exact_mod_cast (mul_eq_zero.mp hZ).resolve_right (zpow_ne_zero d two_ne_zero)
  rw [unpack_add, hadd, hZ0]
  exact unpack_pack_zero .positive

/-! ## Adding a positive zero -/

theorem unpack_singleOfInt_zero : (singleOfInt 0).toModel.unpack = .zero .positive := rfl

theorem add_positiveZero_left (F : Format) {w : UnpackedFloat} (hw : w ≠ .zero .negative) :
    UnpackedFloat.add F (.zero .positive) w = w := by
  cases w with
  | zero s => cases s <;> first | rfl | exact absurd rfl hw
  | _ => rfl

theorem add_positiveZero_right (F : Format) {w : UnpackedFloat} (hw : w ≠ .zero .negative) :
    UnpackedFloat.add F w (.zero .positive) = w := by
  cases w with
  | zero s => cases s <;> first | rfl | exact absurd rfl hw
  | _ => rfl

theorem unpack_singleOfInt_ne {z : Int} (h : RawSample.roundTrips z = true) :
    (singleOfInt z).toModel.unpack ≠ .zero .negative := by
  intro hz
  by_cases z0 : z = 0
  · subst z0
    rw [unpack_singleOfInt_zero] at hz
    cases hz
  · have hv := (singleRat_singleOfInt h).1
    rw [singleRat_eq, hz, ofUnpacked_zero_toRat] at hv
    exact z0 (by exact_mod_cast hv.symm)

/-! ## Sums of converted integers -/

/-- Two integers that convert to singles exactly add, as singles, to their integer sum
converted once. -/
theorem singleOfInt_add_singleOfInt {p q : Int} (hp : RawSample.roundTrips p = true)
    (hq : RawSample.roundTrips q = true) : singleOfInt p + singleOfInt q = singleOfInt (p + q) := by
  obtain ⟨vp, fp⟩ := singleRat_singleOfInt hp
  obtain ⟨vq, fq⟩ := singleRat_singleOfInt hq
  by_cases p0 : p = 0
  · subst p0
    apply eq_of_unpack_eq
    rw [unpack_add, unpack_singleOfInt_zero, add_positiveZero_left _ (unpack_singleOfInt_ne hq),
      Int.zero_add]
    exact unpack_pack_unpack _
  by_cases q0 : q = 0
  · subst q0
    apply eq_of_unpack_eq
    rw [unpack_add, unpack_singleOfInt_zero, add_positiveZero_right _ (unpack_singleOfInt_ne hp),
      Int.add_zero]
    exact unpack_pack_unpack _
  have hp0 : singleRat (singleOfInt p) ≠ 0 := by rw [vp]; exact_mod_cast p0
  have hq0 : singleRat (singleOfInt q) ≠ 0 := by rw [vq]; exact_mod_cast q0
  by_cases s0 : p + q = 0
  · apply eq_of_unpack_eq
    rw [s0, unpack_singleOfInt_zero]
    exact unpack_add_cancel fp fq hp0 hq0 (by rw [vp, vq]; exact_mod_cast s0)
  have hsum : singleRat (singleOfInt p) + singleRat (singleOfInt q) = ((p + q : Int) : ℚ) := by
    rw [vp, vq]
    push_cast
    rfl
  have hv : ((p + q).natAbs : ℚ) / (1 : Nat) = |singleRat (singleOfInt p) + singleRat (singleOfInt q)| := by
    rw [hsum, Nat.cast_one, div_one, Nat.cast_natAbs, Int.cast_abs]
  rw [← singleOfBits_bitsOf (singleOfInt p + singleOfInt q),
    bitsOf_add fp fq hp0 hq0 (by rw [hsum]; exact_mod_cast s0) one_pos hv, hsum]
  have hsign : decide (((p + q : Int) : ℚ) < 0) = decide (p + q < 0) := by
    simp only [Int.cast_lt_zero]
  rw [hsign]
  rfl

end PointerAccel.Binary

namespace PointerAccel.Engine

open PointerAccel.Binary

/-- Merging a sample that passes the exactness check with a buffer whose sum on an axis
converts exactly rounds the exact integer sum once, as the law on the merge asks. -/
theorem merge_rounds_sum_once {s : RawSample} (b : EventBuffer) (hs : s.isFloatExact = true)
    (a : Axis) (hb : RawSample.roundTrips (b.along a) = true) :
    mergeAlong s b a = singleOfInt (s.along a + b.along a) := by
  rw [mergeAlong_eq]
  exact singleOfInt_add_singleOfInt (RawSample.roundTrips_along hs a) hb

/-- A buffer of `2^24`, past the range of exact integers but a single of its own, merges with a
sample of `-1` into the single `16777215`, the exact sum. -/
theorem exact_buffer_merges_once :
    let s : RawSample := ⟨-1, 0, 0⟩
    let b : EventBuffer := ⟨16777216, 0, 0⟩
    s.isFloatExact = true ∧ RawSample.roundTrips (b.along .x) = true ∧
      mergeAlong s b .x = singleOfInt (s.along .x + b.along .x) := by
  intro s b
  have hs : s.isFloatExact = true := by decide +kernel
  have hb : RawSample.roundTrips (b.along .x) = true := by decide +kernel
  exact ⟨hs, hb, merge_rounds_sum_once b hs .x hb⟩

/-- The law fails for a buffer that does not convert exactly. A sample of `16777217` fails the
exactness check and is buffered as it came; the next sample, `-1`, passes it, and the merge
rounds the buffer to `16777216` before adding, giving `16777215` and a cycle that emits
`16777215`, where the exact sum `16777216` is a single of its own. -/
theorem prefaulted_buffer_rounds_twice :
    let p : ParamSet := { ParamSet.default with acceleration := 0.0 }
    let e := Engine.init p (Surface.ofParams p) 0 true
    let c : Call := ⟨(e.process ⟨16777217, 0, 0⟩).2, ⟨-1, 0, 0⟩⟩
    e.calls [.process ⟨16777217, 0, 0⟩, .process ⟨-1, 0, 0⟩] = [⟨e, ⟨16777217, 0, 0⟩⟩, c] ∧
      c.passes = true ∧ c.engine.buffer.along .x = 16777217 ∧
      decodeSingle (mergeAlong c.sample c.engine.buffer .x) = .finite false 16777215 0 ∧
      decodeSingle (singleOfInt (c.sample.along .x + c.engine.buffer.along .x)) =
        .finite false (2 ^ 23) 1 ∧
      c.result = .ok ⟨16777215, 0, 0⟩ := by
  intro p e c
  exact ⟨rfl, by decide +kernel⟩

end PointerAccel.Engine
