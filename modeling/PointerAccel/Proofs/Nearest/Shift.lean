import Mathlib

/-!
# What the round and sticky bits of the float model mean

The float model rounds a significand by shifting it right with two extra bits: the round bit,
the first bit shifted out, and the sticky bit, whether any bit below it was set. Read against
the exact value `x` that the significand stands for, in units of its last place, the significand
is `⌊x⌋` and the two bits place `x` against the midpoint `⌊x⌋ + 1/2`. Shifting keeps that
reading, and rounding the significand gives the integer nearest to `x`, ties to even.

* `describes_ofMantissaAndAccuracy`: a quotient with its remainder read as an accuracy
  describes the exact quotient;
* `Describes.shiftRight`: a significand shifted by `k` describes the value over `2^k`;
* `Describes.nearestEven`: the rounded significand is the integer nearest to the value;
* `NearestEven.unique`: there is one such integer.
-/

namespace PointerAccel.Binary

open Float.Model.UnpackedFloat

/-- `n` is the integer nearest to `x`, the even one on a tie. -/
def NearestEven (n : Nat) (x : ℚ) : Prop :=
  (n : ℚ) - 1 / 2 ≤ x ∧ x ≤ n + 1 / 2 ∧ (x = n - 1 / 2 ∨ x = n + 1 / 2 → n % 2 = 0)

/-- The exact value `x` that an extended significand stands for, in units of its last place. -/
def Describes (em : ExtendedMantissa) (x : ℚ) : Prop :=
  match em.roundBit, em.stickyBit with
  | false, false => x = em.mantissa
  | false, true => (em.mantissa : ℚ) < x ∧ x < em.mantissa + 1 / 2
  | true, false => x = em.mantissa + 1 / 2
  | true, true => (em.mantissa : ℚ) + 1 / 2 < x ∧ x < em.mantissa + 1

theorem NearestEven.unique {n n' : Nat} {x : ℚ} (h : NearestEven n x) (h' : NearestEven n' x) :
    n = n' := by
  obtain ⟨hlo, hhi, htie⟩ := h
  obtain ⟨hlo', hhi', htie'⟩ := h'
  have hle : (n : ℚ) ≤ n' + 1 := by linarith
  have hge : (n' : ℚ) ≤ n + 1 := by linarith
  have hle' : n ≤ n' + 1 := by exact_mod_cast hle
  have hge' : n' ≤ n + 1 := by exact_mod_cast hge
  by_contra hne
  rcases Nat.lt_or_gt_of_ne hne with hlt | hlt
  · have hn' : n' = n + 1 := by omega
    subst hn'
    push_cast at hlo' hhi
    have hx : x = n + 1 / 2 := by linarith
    have h1 := htie (.inr hx)
    have h2 := htie' (.inl (by push_cast; linarith))
    omega
  · have hn : n = n' + 1 := by omega
    subst hn
    push_cast at hlo hhi'
    have hx : x = n' + 1 / 2 := by linarith
    have h1 := htie' (.inr hx)
    have h2 := htie (.inl (by push_cast; linarith))
    omega

theorem NearestEven.le_of_lt {n k : Nat} {x : ℚ} (h : NearestEven n x) (hx : x < k) : n ≤ k := by
  have : (n : ℚ) < k + 1 := by linarith [h.1]
  exact_mod_cast Nat.lt_succ_iff.1 (by exact_mod_cast this)

theorem NearestEven.le_of_le {n k : Nat} {x : ℚ} (h : NearestEven n x) (hx : (k : ℚ) ≤ x) :
    k ≤ n := by
  have : (k : ℚ) < n + 1 := by linarith [h.2.1]
  exact Nat.lt_succ_iff.1 (by exact_mod_cast this)

/-- A significand with the remainder `r` of a division by `D` read as its accuracy describes
the exact quotient. -/
theorem describes_ofMantissaAndAccuracy (M : Nat) {r D : Nat} (hD : 0 < D) (hr : r < D) :
    Describes (ExtendedMantissa.ofMantissaAndAccuracy M (accuracyOfFraction r D)) (M + r / D) := by
  have hD' : (0 : ℚ) < D := by exact_mod_cast hD
  unfold accuracyOfFraction
  by_cases h0 : r = 0
  · subst h0
    simp [ExtendedMantissa.ofMantissaAndAccuracy, Describes]
  rw [if_neg h0]
  have hpos : (0 : ℚ) < r / D := div_pos (by exact_mod_cast Nat.pos_of_ne_zero h0) hD'
  have hlt1 : (r : ℚ) / D < 1 := by
    rw [div_lt_one hD']
    exact_mod_cast hr
  have hhalf : (r : ℚ) / D - 1 / 2 = (2 * r - D : ℚ) / (2 * D) := by
    field_simp
  cases hc : compare (2 * r) D with
  | lt =>
    have h2 : (2 * r : ℚ) < D := by exact_mod_cast Nat.compare_eq_lt.1 hc
    have : (r : ℚ) / D < 1 / 2 := by
      have : (2 * r - D : ℚ) / (2 * D) < 0 := div_neg_of_neg_of_pos (by linarith) (by positivity)
      linarith
    simp only [ExtendedMantissa.ofMantissaAndAccuracy, Describes]
    constructor <;> linarith
  | eq =>
    have h2 : (2 * r : ℚ) = D := by exact_mod_cast Nat.compare_eq_eq.1 hc
    have : (r : ℚ) / D = 1 / 2 := by
      have : (2 * r - D : ℚ) / (2 * D) = 0 := by rw [h2, sub_self, zero_div]
      linarith
    simp only [ExtendedMantissa.ofMantissaAndAccuracy, Describes]
    linarith
  | gt =>
    have h2 : (D : ℚ) < 2 * r := by exact_mod_cast Nat.compare_eq_gt.1 hc
    have : 1 / 2 < (r : ℚ) / D := by
      have : 0 < (2 * r - D : ℚ) / (2 * D) := div_pos (by linarith) (by positivity)
      linarith
    simp only [ExtendedMantissa.ofMantissaAndAccuracy, Describes]
    constructor <;> linarith

theorem Describes.shiftRightOne {em : ExtendedMantissa} {x : ℚ} (h : Describes em x) :
    Describes em.shiftRightOne (x / 2) := by
  obtain ⟨m, rb, sb⟩ := em
  have hsplit : (m : ℚ) = 2 * (m / 2 : Nat) + (m % 2 : Nat) := by
    exact_mod_cast (Nat.div_add_mod m 2).symm
  rcases Nat.mod_two_eq_zero_or_one m with hb | hb
  · have hbit : (m % 2 != 0) = false := by rw [hb]; rfl
    rw [hb, Nat.cast_zero, add_zero] at hsplit
    cases rb <;> cases sb <;> simp only [ExtendedMantissa.shiftRightOne, Describes, hbit,
      Bool.or_false, Bool.or_true] at h ⊢
    · linarith
    all_goals constructor <;> linarith
  · have hbit : (m % 2 != 0) = true := by rw [hb]; rfl
    rw [hb, Nat.cast_one] at hsplit
    cases rb <;> cases sb <;> simp only [ExtendedMantissa.shiftRightOne, Describes, hbit,
      Bool.or_false, Bool.or_true] at h ⊢
    · linarith
    all_goals constructor <;> linarith

theorem Describes.shiftRight {em : ExtendedMantissa} {x : ℚ} (h : Describes em x) (k : Nat) :
    Describes (em >>> k) (x / 2 ^ k) := by
  change Describes (k.repeat ExtendedMantissa.shiftRightOne em) _
  induction k with
  | zero => simpa [Nat.repeat] using h
  | succ k ih =>
    rw [Nat.repeat, pow_succ, ← div_div]
    exact ih.shiftRightOne

/-- Rounding a significand to nearest, ties to even, by its two bits gives the integer nearest
to the value it describes. -/
theorem Describes.nearestEven {em : ExtendedMantissa} {x : ℚ} (h : Describes em x) :
    NearestEven em.roundedMantissa x := by
  obtain ⟨m, rb, sb⟩ := em
  unfold NearestEven
  cases rb <;> cases sb <;>
    simp only [Describes, ExtendedMantissa.roundedMantissa, ExtendedMantissa.accuracy,
      Accuracy.roundToNearestEven] at h ⊢
  · subst h
    refine ⟨by linarith, by linarith, fun h' => ?_⟩
    rcases h' with h' | h' <;> linarith
  · refine ⟨by linarith, by linarith, fun h' => ?_⟩
    rcases h' with h' | h' <;> linarith
  · subst h
    rcases Nat.mod_two_eq_zero_or_one m with hb | hb <;> rw [hb]
    · refine ⟨by push_cast; linarith, by push_cast; linarith, fun _ => hb⟩
    · refine ⟨by push_cast; linarith, by push_cast; linarith, fun _ => by omega⟩
  · refine ⟨by push_cast; linarith, by push_cast; linarith, fun h' => ?_⟩
    push_cast at h'
    rcases h' with h' | h' <;> linarith

end PointerAccel.Binary
