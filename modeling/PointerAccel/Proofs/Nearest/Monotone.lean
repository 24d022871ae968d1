import Mathlib
import PointerAccel.Proofs.Nearest.Decode

/-!
# Rounding to nearest is monotone

A larger value never rounds to a smaller one. Within one last place the rounded significands
are the integers nearest to the scaled values, and two values cannot cross there, since a tie
goes to the even neighbour from either side. A value with a higher last place lies in a higher
binade and rounds to at least the power of two at its bottom, which no rounding from below
passes. `roundRat` then packs the rounded value, or overflows to infinity from
`2^(maxExp + p + 1)` on, a threshold that a monotone rounding crosses only once.

* `NearestEven.mono`: nearest integers, ties to even, are monotone in the value;
* `RoundsTo.mono`: rounding in a format is monotone;
* `roundRat_cases`: the bits of `roundRat` are the packed rounded value below the threshold,
  and infinity from it on.
-/

namespace PointerAccel.Binary

open BinaryFormat

theorem NearestEven.mono {n n' : Nat} {x x' : ℚ} (h : NearestEven n x) (h' : NearestEven n' x')
    (hx : x ≤ x') : n ≤ n' := by
  by_contra hlt
  have hstep : (n' : ℚ) + 1 ≤ n := by exact_mod_cast Nat.lt_of_not_le hlt
  obtain ⟨hlo, -, htie⟩ := h
  obtain ⟨-, hhi', htie'⟩ := h'
  have hx₁ : x = n - 1 / 2 := by linarith
  have hx₂ : x' = n' + 1 / 2 := by linarith
  have hn : n = n' + 1 := by
    have hq : (n : ℚ) = n' + 1 := by linarith
    exact_mod_cast hq
  have h₁ := htie (.inl hx₁)
  have h₂ := htie' (.inr hx₂)
  omega

section RoundsTo

variable {f : BinaryFormat} {v v' w w' : ℚ}

theorem double_hidden_mul_zpow (f : BinaryFormat) (q : Int) :
    ((2 * f.hidden : Nat) : ℚ) * 2 ^ q = 2 ^ ((f.fracBits : Int) + 1 + q) := by
  rw [zpow_add₀ two_ne_zero, zpow_add_one₀ two_ne_zero, ← hidden_cast]
  push_cast
  ring

theorem RoundsTo.nonneg (h : RoundsTo f v w) : 0 ≤ w := by
  obtain ⟨B, n, -, -, rfl⟩ := h
  positivity

theorem RoundsTo.mono (h : RoundsTo f v w) (h' : RoundsTo f v' w') (hv : v ≤ v') : w ≤ w' := by
  obtain ⟨B, n, hbin, hn, rfl⟩ := h
  obtain ⟨B', n', hbin', hn', rfl⟩ := h'
  have hB : B ≤ B' := by
    have := two_zpow_lt_two_zpow (lt_of_le_of_lt hbin.1 (lt_of_le_of_lt hv hbin'.2))
    omega
  rcases eq_or_lt_of_le (max_le_max hB (le_refl f.minExp)) with ht | ht
  · rw [← ht] at hn' ⊢
    have hpos : (0 : ℚ) < 2 ^ max B f.minExp := zpow_pos two_pos _
    have hle : n ≤ n' := hn.mono hn' (div_le_div_of_nonneg_right hv hpos.le)
    gcongr
  · have ht' : max B' f.minExp = B' := max_eq_left (by
      rcases le_total B' f.minExp with hle | hle
      · rw [max_eq_right hle, max_eq_right (hB.trans hle)] at ht
        exact absurd ht (lt_irrefl _)
      · exact hle)
    have hup := (NearestEven.binade_range f hbin (by rw [add_sub_cancel_right]) hn).1
    have hlow := hidden_le_of_binade hbin'.1 ht' hn'
    calc (n : ℚ) * 2 ^ max B f.minExp ≤ (2 * f.hidden : Nat) * 2 ^ max B f.minExp := by
          gcongr
      _ = 2 ^ ((f.fracBits : Int) + 1 + max B f.minExp) := double_hidden_mul_zpow f _
      _ ≤ 2 ^ ((f.fracBits : Int) + max B' f.minExp) := zpow_le_zpow_right₀ (by norm_num) (by omega)
      _ = (f.hidden : ℚ) * 2 ^ max B' f.minExp := by rw [hidden_cast, zpow_add₀ two_ne_zero]
      _ ≤ n' * 2 ^ max B' f.minExp := by gcongr

end RoundsTo

/-- The bits of `roundRat` for a positive value: the value it rounds to, packed, when that is
below `2^(maxExp + p + 1)`, and the infinity of the sign from there on. -/
theorem roundRat_cases {f : BinaryFormat} (hw : 2 ≤ f.expBits) (neg : Bool) {num den : Nat}
    (hnum : 0 < num) (hden : 0 < den) :
    ∃ w, RoundsTo f ((num : ℚ) / den) w ∧
      ((w < 2 ^ (f.maxExp + f.fracBits + 1) ∧
          ∃ m q, f.roundRat neg num den = f.pack neg m q ∧ f.Fits m q ∧ w = m * 2 ^ q) ∨
        (2 ^ (f.maxExp + f.fracBits + 1) ≤ w ∧
          f.roundRat neg num den = (if neg then f.signBit else 0) + f.infBits)) := by
  obtain ⟨hE4, hspan⟩ := exponent_span hw
  have hbin := binadeExp_bounds_of f hnum hden
  have hnear := nearestEven_scaledRound num hden (max (f.binadeExp num den) f.minExp)
  obtain ⟨hle, hnorm⟩ := NearestEven.binade_range f hbin (by rw [add_sub_cancel_right]) hnear
  have hq : f.minExp ≤ max (f.binadeExp num den) f.minExp := le_max_right _ _
  have hhid : (0 : ℚ) < f.hidden := by exact_mod_cast hidden_pos f
  refine ⟨_, ⟨_, _, hbin, hnear, rfl⟩, ?_⟩
  unfold roundRat
  rw [if_neg (Nat.pos_iff_ne_zero.mp hnum)]
  dsimp only
  generalize max (f.binadeExp num den) f.minExp = q at hle hnorm hq ⊢
  generalize scaledRound num den q = m at hle hnorm ⊢
  rcases lt_or_eq_of_le hle with hlt | hcarry
  · simp only [hlt.ne, decide_false, Bool.false_eq_true, if_false]
    by_cases hover : f.maxExp < q
    · rw [if_pos hover]
      have hm : f.hidden ≤ m := hnorm.resolve_right (by omega)
      refine .inr ⟨?_, rfl⟩
      calc (2 : ℚ) ^ (f.maxExp + f.fracBits + 1) ≤ 2 ^ ((f.fracBits : Int) + q) :=
            zpow_le_zpow_right₀ (by norm_num) (by omega)
        _ = (f.hidden : ℚ) * 2 ^ q := by rw [hidden_cast, zpow_add₀ two_ne_zero]
        _ ≤ m * 2 ^ q := by gcongr
    · rw [if_neg hover]
      refine .inl ⟨?_, m, q, rfl, ⟨hlt, hq, by omega, hnorm⟩, rfl⟩
      calc (m : ℚ) * 2 ^ q < (2 * f.hidden : Nat) * 2 ^ q := by gcongr
        _ = 2 ^ ((f.fracBits : Int) + 1 + q) := double_hidden_mul_zpow f q
        _ ≤ 2 ^ (f.maxExp + f.fracBits + 1) := zpow_le_zpow_right₀ (by norm_num) (by omega)
  · subst hcarry
    simp only [decide_true, if_true]
    rw [double_hidden_mul_zpow]
    by_cases hover : f.maxExp < q + 1
    · rw [if_pos hover]
      exact .inr ⟨zpow_le_zpow_right₀ (by norm_num) (by omega), rfl⟩
    · rw [if_neg hover]
      refine .inl ⟨zpow_lt_zpow_right₀ (by norm_num) (by omega), f.hidden, q + 1, rfl,
        ⟨by have := hidden_pos f; omega, by omega, by omega, Or.inl le_rfl⟩, ?_⟩
      rw [hidden_cast, ← zpow_add₀ two_ne_zero]
      congr 1
      ring

end PointerAccel.Binary
