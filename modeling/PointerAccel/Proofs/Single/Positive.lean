import Mathlib
import PointerAccel.Proofs.Single.Bounds
import PointerAccel.Proofs.Single.Order

/-!
# Positive singles within bounds, and zeros

`PosIn lo hi x` says that `x` is a positive finite single whose value lies in `[lo, hi]`. Away
from overflow and underflow every operation keeps a positive single within bounds a small
factor wider than the exact ones, which is all a proof needs where a value only has to stay
positive and finite. Zeros, of either sign, are closed under the same operations.

* `posIn_mul_self`, `posIn_add`, `posIn_div`, `posIn_sqrt`: squares, sums, quotients and
  square roots of positive singles within bounds;
* `posIn_add_zero_left`, `posIn_add_zero_right`, `unpack_sub_zero`: a zero operand leaves the
  other operand as it is;
* `IsZero` and its operation lemmas: squares, sums, square roots and quotients of zeros;
* `PosIn.not_le_zero`, `IsZero.le_zero`: how both compare with zero;
* `unpack_mul_one`, `add_isZero`, `unpack_isZero_add`: multiplying by one and adding a zero
  change nothing;
* `int_single_cases`: a single holding a whole number up to `2^24` is a zero or has magnitude
  between `1` and `2^24`.
-/

namespace PointerAccel.Binary

open Float.Model Float.Model.UnpackedFloat

/-- A positive finite single whose value lies in `[lo, hi]`. -/
def PosIn (lo hi : ℚ) (x : Float32) : Prop :=
  ∃ m e hp, x.toModel.unpack = .finite .positive m e hp ∧ Canonical m e ∧
    lo ≤ (m : ℚ) * 2 ^ e ∧ (m : ℚ) * 2 ^ e ≤ hi

/-- A zero single, of either sign. -/
def IsZero (x : Float32) : Prop := ∃ s, x.toModel.unpack = .zero s

theorem PosIn.mono {lo hi lo' hi' : ℚ} {x : Float32} (h : PosIn lo hi x) (hlo : lo' ≤ lo)
    (hhi : hi ≤ hi') : PosIn lo' hi' x := by
  obtain ⟨m, e, hp, hx, hc, h₁, h₂⟩ := h
  exact ⟨m, e, hp, hx, hc, hlo.trans h₁, h₂.trans hhi⟩

theorem PosIn.isFinite {lo hi : ℚ} {x : Float32} (h : PosIn lo hi x) : x.isFinite = true := by
  obtain ⟨m, e, hp, hx, -⟩ := h
  rw [isFinite_eq_unpack, hx]
  rfl

theorem PosIn.singleRat_mem {lo hi : ℚ} {x : Float32} (h : PosIn lo hi x) :
    lo ≤ singleRat x ∧ singleRat x ≤ hi := by
  obtain ⟨m, e, hp, hx, -, h₁, h₂⟩ := h
  rw [singleRat_eq, hx, ofUnpacked_finite_toRat]
  exact ⟨h₁, h₂⟩

theorem IsZero.isFinite {x : Float32} (h : IsZero x) : x.isFinite = true := by
  obtain ⟨s, hx⟩ := h
  rw [isFinite_eq_unpack, hx]
  rfl

theorem IsZero.singleRat_zero {x : Float32} (h : IsZero x) : singleRat x = 0 := by
  obtain ⟨s, hx⟩ := h
  rw [singleRat_eq, hx, ofUnpacked_zero_toRat]

theorem posIn_of_unpack {lo hi : ℚ} {x : Float32} {m : Nat} {e : Int} {hp : 0 < m}
    (hx : x.toModel.unpack = unpack Format.binary32 (pack Format.binary32 (.finite .positive m e hp)))
    (hc : Canonical m e) (h₁ : lo ≤ (m : ℚ) * 2 ^ e) (h₂ : (m : ℚ) * 2 ^ e ≤ hi) :
    PosIn lo hi x := by
  rw [unpack_pack_canonical _ hp hc] at hx
  exact ⟨m, e, hp, hx, hc, h₁, h₂⟩

theorem sign_mul_self (s : Sign) : s * s = .positive := by
  cases s <;> rfl

theorem two_pow_neg_149_le_one : (2 : ℚ) ^ (-149 : Int) ≤ 1 :=
  zpow_le_one_of_nonpos₀ (by norm_num) (by norm_num)

/-! ## Operations on positive singles -/

theorem posIn_mul_self {x : Float32} {s : Sign} {m : Nat} {e : Int} {hp : 0 < m}
    (hx : x.toModel.unpack = .finite s m e hp) (h₁ : 1 ≤ (m : ℚ) * 2 ^ e)
    (h₂ : (m : ℚ) * 2 ^ e ≤ 2 ^ 24) : PosIn (1 / 2) (2 ^ 49) (x * x) := by
  have hc := canonical_of_unpack hx
  have hv : ((m * m : Nat) : ℚ) * 2 ^ (e + e) = ((m : ℚ) * 2 ^ e) ^ 2 := by
    push_cast
    rw [zpow_add₀ two_ne_zero]
    ring
  have hsq₁ : 1 ≤ ((m : ℚ) * 2 ^ e) ^ 2 := one_le_pow₀ h₁
  have hsq₂ : ((m : ℚ) * 2 ^ e) ^ 2 ≤ 2 ^ 48 := by
    calc ((m : ℚ) * 2 ^ e) ^ 2 ≤ (2 ^ 24) ^ 2 := by gcongr
      _ = 2 ^ 48 := by norm_num
  have hmax : (2 : ℚ) ^ 48 ≤ 2 ^ (100 : Int) := by norm_num
  obtain ⟨m', e', hp', hr, hc', hlow, hup⟩ := mul_within s s hp hp hc hc
    (by rw [hv]; linarith [two_pow_neg_149_le_one]) (by rw [hv]; linarith)
  rw [hv] at hlow hup
  rw [sign_mul_self] at hr
  refine posIn_of_unpack (by rw [unpack_mul, hx, hr]) hc' ?_ ?_
  · linarith
  · linarith

theorem posIn_add {a b c d : ℚ} {x y : Float32} (hx : PosIn a b x) (hy : PosIn c d y)
    (hbd : b + d ≤ 2 ^ (100 : Int)) : PosIn ((a + c) / 2) (2 * (b + d)) (x + y) := by
  obtain ⟨m₁, e₁, hp₁, hx, hc₁, ha, hb⟩ := hx
  obtain ⟨m₂, e₂, hp₂, hy, hc₂, hc, hd⟩ := hy
  obtain ⟨m, e, hp, hr, hcan, hlow, hup⟩ := add_within hp₁ hp₂ hc₁ (by linarith)
  refine posIn_of_unpack (by rw [unpack_add, hx, hy, hr]) hcan ?_ ?_
  · linarith
  · linarith

theorem posIn_div {a b c d : ℚ} {x y : Float32} (hx : PosIn a b x) (hy : PosIn c d y)
    (hc : 0 < c) (hlo : 2 ^ (-148 : Int) ≤ a / d) (hhi : b / c ≤ 2 ^ (100 : Int)) :
    PosIn (a / d / 4) (2 * (b / c)) (x / y) := by
  obtain ⟨m₁, e₁, hp₁, hx, -, ha, hb⟩ := hx
  obtain ⟨m₂, e₂, hp₂, hy, -, hc', hd⟩ := hy
  have hy0 : (0 : ℚ) < m₂ * 2 ^ e₂ := lt_of_lt_of_le hc hc'
  have ha0 : 0 ≤ a := by
    have : (0 : ℚ) < 2 ^ (-148 : Int) := by positivity
    by_contra h
    have : a / d ≤ 0 := div_nonpos_of_nonpos_of_nonneg (by linarith) (by linarith)
    linarith
  have hq₁ : a / d ≤ (m₁ : ℚ) * 2 ^ e₁ / (m₂ * 2 ^ e₂) := div_le_div₀ (by linarith) ha hy0 hd
  have hq₂ : (m₁ : ℚ) * 2 ^ e₁ / (m₂ * 2 ^ e₂) ≤ b / c :=
    div_le_div₀ (by linarith) hb hc hc'
  obtain ⟨m, e, hp, hr, hcan, hlow, hup⟩ :=
    div_within .positive .positive hp₁ hp₂ (hlo.trans hq₁) (hq₂.trans hhi)
  refine posIn_of_unpack (by rw [unpack_div, hx, hy, hr]; rfl) hcan ?_ ?_
  · linarith
  · linarith

/-- The square root of a positive single within bounds: its square is within a factor of
sixteen of the operand. -/
theorem posIn_sqrt {a b lo hi : ℚ} {x : Float32} (hx : PosIn a b x)
    (hlo : 16 * lo ^ 2 ≤ a) (hhi : 0 ≤ hi) (hhi' : 4 * b ≤ hi ^ 2) :
    PosIn lo hi (Float32.sqrt x) := by
  obtain ⟨m₁, e₁, hp₁, hx, hc₁, ha, hb⟩ := hx
  obtain ⟨m, e, hp, hr, hcan, hlow, hup⟩ := sqrt_within hp₁ hc₁
  have hr0 : (0 : ℚ) ≤ m * 2 ^ e := by positivity
  refine posIn_of_unpack (by rw [unpack_sqrt, hx, hr]) hcan ?_ ?_
  · apply le_of_pow_le_pow_left₀ two_ne_zero hr0
    nlinarith
  · apply le_of_pow_le_pow_left₀ two_ne_zero hhi
    nlinarith

/-! ## Zero operands -/

theorem posIn_add_zero_left {lo hi : ℚ} {x y : Float32} (hx : IsZero x) (hy : PosIn lo hi y) :
    PosIn lo hi (x + y) := by
  obtain ⟨s, hx⟩ := hx
  obtain ⟨m, e, hp, hy, hc, h₁, h₂⟩ := hy
  exact posIn_of_unpack (by rw [unpack_add, hx, hy]; rfl) hc h₁ h₂

theorem posIn_add_zero_right {lo hi : ℚ} {x y : Float32} (hx : PosIn lo hi x) (hy : IsZero y) :
    PosIn lo hi (x + y) := by
  obtain ⟨s, hy⟩ := hy
  obtain ⟨m, e, hp, hx, hc, h₁, h₂⟩ := hx
  exact posIn_of_unpack (by rw [unpack_add, hx, hy]; rfl) hc h₁ h₂

theorem unpack_sub_zero {x y : Float32} {s : Sign} {m : Nat} {e : Int} {hp : 0 < m}
    (hx : x.toModel.unpack = .finite s m e hp) (hy : IsZero y) :
    (x - y).toModel.unpack = x.toModel.unpack := by
  obtain ⟨s', hy⟩ := hy
  have hc := canonical_of_unpack hx
  rw [unpack_sub, hx, hy]
  exact unpack_pack_canonical s hp hc

theorem isZero_of_unpack {x : Float32} {s : Sign}
    (hx : x.toModel.unpack = unpack Format.binary32 (pack Format.binary32 (.zero s))) :
    IsZero x :=
  ⟨s, by rw [hx, unpack_pack_zero]⟩

theorem isZero_mul_self {x : Float32} (hx : IsZero x) : IsZero (x * x) := by
  obtain ⟨s, hx⟩ := hx
  exact isZero_of_unpack (by rw [unpack_mul, hx]; rfl)

theorem isZero_add {x y : Float32} (hx : IsZero x) (hy : IsZero y) : IsZero (x + y) := by
  obtain ⟨s, hx⟩ := hx
  obtain ⟨s', hy⟩ := hy
  rw [IsZero, unpack_add, hx, hy]
  simp only [UnpackedFloat.add]
  split
  · exact ⟨s, unpack_pack_zero s⟩
  · exact ⟨.positive, unpack_pack_zero .positive⟩

theorem isZero_sub {x y : Float32} (hx : IsZero x) (hy : IsZero y) : IsZero (x - y) := by
  obtain ⟨s, hx⟩ := hx
  obtain ⟨s', hy⟩ := hy
  rw [IsZero, unpack_sub, hx, hy]
  simp only [UnpackedFloat.sub]
  split
  · exact ⟨s, unpack_pack_zero s⟩
  · exact ⟨.positive, unpack_pack_zero .positive⟩

theorem isZero_sqrt {x : Float32} (hx : IsZero x) : IsZero (Float32.sqrt x) := by
  obtain ⟨s, hx⟩ := hx
  exact isZero_of_unpack (by rw [unpack_sqrt, hx]; rfl)

theorem isZero_div {lo hi : ℚ} {x y : Float32} (hx : IsZero x) (hy : PosIn lo hi y) :
    IsZero (x / y) := by
  obtain ⟨s, hx⟩ := hx
  obtain ⟨m, e, hp, hy, -⟩ := hy
  exact isZero_of_unpack (by rw [unpack_div, hx, hy]; rfl)

theorem isZero_mul_left {x y : Float32} (hx : IsZero x) (hy : y.isFinite = true) :
    IsZero (x * y) := by
  obtain ⟨s, hx⟩ := hx
  rw [isFinite_eq_unpack] at hy
  rw [IsZero, unpack_mul, hx]
  generalize y.toModel.unpack = w at hy
  cases w with
  | notANumber | infinity _ => cases hy
  | zero s' => exact ⟨s * s', unpack_pack_zero _⟩
  | finite s' m e hp => exact ⟨s * s', unpack_pack_zero _⟩

theorem isZero_mul_right {x y : Float32} (hx : x.isFinite = true) (hy : IsZero y) :
    IsZero (x * y) := by
  obtain ⟨s', hy⟩ := hy
  rw [isFinite_eq_unpack] at hx
  rw [IsZero, unpack_mul, hy]
  generalize x.toModel.unpack = u at hx
  cases u with
  | notANumber | infinity _ => cases hx
  | zero s => exact ⟨s * s', unpack_pack_zero _⟩
  | finite s m e hp => exact ⟨s * s', unpack_pack_zero _⟩

/-! ## Against zero -/

theorem unpack_zero : (0.0 : Float32).toModel.unpack = .zero .positive := rfl

theorem PosIn.not_le_zero {lo hi : ℚ} {x : Float32} (h : PosIn lo hi x) : ¬ x ≤ 0.0 := by
  obtain ⟨m, e, hp, hx, -⟩ := h
  rw [le_iff_unpack_le, hx, unpack_zero]
  simp [UnpackedFloat.le, UnpackedFloat.compare]

theorem IsZero.le_zero {x : Float32} (h : IsZero x) : x ≤ 0.0 := by
  obtain ⟨s, hx⟩ := h
  rw [le_iff_unpack_le, hx, unpack_zero]
  rfl

theorem isZero_of_beq_zero {x : Float32} (h : (x == 0.0) = true) : IsZero x := by
  change x.toModel.unpack.beq (0.0 : Float32).toModel.unpack = true at h
  rw [unpack_zero] at h
  unfold IsZero
  generalize x.toModel.unpack = u at h ⊢
  cases u with
  | zero s => exact ⟨s, rfl⟩
  | notANumber => simp [UnpackedFloat.beq, UnpackedFloat.compare] at h
  | infinity s => cases s <;> simp [UnpackedFloat.beq, UnpackedFloat.compare] at h
  | finite s _ _ _ => cases s <;> simp [UnpackedFloat.beq, UnpackedFloat.compare] at h

/-! ## Reading a value back -/

theorem PosIn.of_unpack_eq {lo hi : ℚ} {x y : Float32} (hx : PosIn lo hi x)
    (h : y.toModel.unpack = x.toModel.unpack) : PosIn lo hi y := by
  obtain ⟨m, e, hp, hx, rest⟩ := hx
  exact ⟨m, e, hp, h.trans hx, rest⟩

theorem posIn_of_singleRat {lo hi : ℚ} {x : Float32} (hx : x.isFinite = true) (hlo : 0 < lo)
    (h₁ : lo ≤ singleRat x) (h₂ : singleRat x ≤ hi) : PosIn lo hi x := by
  have cx := canon_unpack hx
  rw [singleRat_eq] at h₁ h₂
  unfold PosIn
  generalize x.toModel.unpack = u at cx h₁ h₂ ⊢
  cases u with
  | notANumber | infinity _ => exact cx.elim
  | zero s =>
    rw [ofUnpacked_zero_toRat] at h₁
    linarith
  | finite s m e hp =>
    rw [ofUnpacked_finite_toRat] at h₁ h₂
    cases s
    · have := zero_lt_value e hp
      simp only [Sign.apply, Int.cast_neg, Int.cast_natCast, neg_mul] at h₁
      linarith
    · simp only [Sign.apply, Int.cast_natCast] at h₁ h₂
      exact ⟨m, e, hp, rfl, cx, h₁, h₂⟩

theorem isZero_of_singleRat {x : Float32} (hx : x.isFinite = true) (h : singleRat x = 0) :
    IsZero x := by
  have cx := canon_unpack hx
  rw [singleRat_eq] at h
  unfold IsZero
  generalize x.toModel.unpack = u at cx h ⊢
  cases u with
  | notANumber | infinity _ => exact cx.elim
  | zero s => exact ⟨s, rfl⟩
  | finite s m e hp =>
    have := zero_lt_value e hp
    rw [ofUnpacked_finite_toRat] at h
    cases s <;> simp only [Sign.apply, Int.cast_neg, Int.cast_natCast, neg_mul] at h <;> linarith

/-- A single holding a whole number of magnitude at most `2^24` is a zero, or a finite value of
magnitude between `1` and `2^24`. -/
theorem int_single_cases {x : Float32} {z : Int} (hx : x.isFinite = true) (hz : singleRat x = z)
    (hzb : z.natAbs ≤ 2 ^ 24) :
    IsZero x ∨ ∃ s m e hp, x.toModel.unpack = .finite s m e hp ∧ 1 ≤ (m : ℚ) * 2 ^ e ∧
      (m : ℚ) * 2 ^ e ≤ 2 ^ 24 := by
  by_cases h0 : z = 0
  · exact .inl (isZero_of_singleRat hx (by rw [hz, h0, Int.cast_zero]))
  right
  have cx := canon_unpack hx
  rw [singleRat_eq] at hz
  have habs : (1 : ℚ) ≤ |(z : ℚ)| ∧ |(z : ℚ)| ≤ 2 ^ 24 := by
    rw [← Int.cast_abs]
    constructor
    · exact_mod_cast Int.one_le_abs h0
    · have : |z| ≤ 2 ^ 24 := by rw [Int.abs_eq_natAbs]; exact_mod_cast hzb
      exact_mod_cast this
  generalize x.toModel.unpack = u at cx hz ⊢
  cases u with
  | notANumber | infinity _ => exact cx.elim
  | zero s =>
    rw [ofUnpacked_zero_toRat] at hz
    exact absurd (by exact_mod_cast hz.symm) h0
  | finite s m e hp =>
    have hv := zero_lt_value e hp
    rw [ofUnpacked_finite_toRat] at hz
    have hmag : |(z : ℚ)| = m * 2 ^ e := by
      rw [← hz]
      cases s <;> simp only [Sign.apply, Int.cast_neg, Int.cast_natCast, neg_mul, abs_neg,
        abs_of_pos hv]
    exact ⟨s, m, e, hp, rfl, hmag ▸ habs.1, hmag ▸ habs.2⟩

/-! ## Units and zeros -/

theorem unpack_one :
    (1.0 : Float32).toModel.unpack = .finite .positive (2 ^ 23) (-23) (by decide) := rfl

theorem sign_mul_positive (s : Sign) : s * .positive = s := by
  cases s <;> rfl

theorem ulpExp_canonical {m : Nat} {e : Int} (hp : 0 < m) (hc : Canonical m e) : ulpExp m e = e := by
  obtain ⟨hm, he, -, hn⟩ := hc
  have hlog : m.log2 < 24 := (Nat.log2_lt (Nat.ne_of_gt hp)).2 hm
  unfold ulpExp
  rcases hn with hn | hn
  · have : 23 ≤ m.log2 := (Nat.le_log2 (Nat.ne_of_gt hp)).2 hn
    omega
  · omega

theorem unpack_mul_one {x y : Float32} (hx : x.isFinite = true)
    (hy : y.toModel.unpack = (1.0 : Float32).toModel.unpack) :
    (x * y).toModel.unpack = x.toModel.unpack := by
  have cx := canon_unpack hx
  rw [unpack_mul, hy, unpack_one]
  generalize x.toModel.unpack = u at cx ⊢
  cases u with
  | notANumber | infinity _ => exact cx.elim
  | zero s =>
    rw [show UnpackedFloat.mul Format.binary32 (.zero s) (.finite .positive (2 ^ 23) (-23) _) =
      .zero (s * .positive) from rfl, unpack_pack_zero, sign_mul_positive]
  | finite s m e hp =>
    have hr := roundWithAccuracy_exact s hp cx.1 23 cx.2.1 (by rw [ulpExp_canonical hp cx]; omega)
    simp only [ulpExp_canonical hp cx, sub_self, Int.toNat_zero, Nat.pow_zero, Nat.mul_one] at hr
    rw [mul_finite, sign_mul_positive, show e + -23 = e - ((23 : Nat) : Int) by omega, hr,
      unpack_pack_canonical s hp cx]

theorem add_isZero {x y : Float32} (hx : x.isFinite = true) (hy : IsZero y) :
    singleRat (x + y) = singleRat x ∧ (x + y).isFinite = true := by
  have cx := canon_unpack hx
  obtain ⟨s', hy⟩ := hy
  rw [singleRat_eq, singleRat_eq, isFinite_eq_unpack, unpack_add, hy]
  generalize x.toModel.unpack = u at cx ⊢
  cases u with
  | notANumber | infinity _ => exact cx.elim
  | zero s =>
    simp only [UnpackedFloat.add]
    split <;> simp [unpack_pack_zero, UnpackedFloat.isFinite]
  | finite s m e hp =>
    rw [show UnpackedFloat.add Format.binary32 (.finite s m e hp) (.zero s') = .finite s m e hp
      from rfl, unpack_pack_canonical s hp cx]
    exact ⟨rfl, rfl⟩

theorem unpack_isZero_add {x y : Float32} {s : Sign} {m : Nat} {e : Int} {hp : 0 < m}
    (hx : IsZero x) (hy : y.toModel.unpack = .finite s m e hp) :
    (x + y).toModel.unpack = y.toModel.unpack := by
  obtain ⟨s', hx⟩ := hx
  rw [unpack_add, hx, hy]
  exact unpack_pack_canonical s hp (canonical_of_unpack hy)

end PointerAccel.Binary
