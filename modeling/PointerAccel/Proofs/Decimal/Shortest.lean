import Mathlib
import PointerAccel.Proofs.Decimal.Nearest

/-!
# The shortest digits lie in the rounding interval

For a positive single `m·2^e` the printer searches the grids `10^k` for a decimal between the
ends of its rounding interval, with ever more digits, and falls back to the value rounded to
seventeen digits if seventeen digit counts find none. Whichever way it ends, the decimal it
prints lies in the rounding interval, so by `roundRat_of_inRounding` it reads back as the
single it came from.

* `scaledDecimal_quotient`: the three scaled readings of `x·2^e / 10^k` on one quotient;
* `candidate_within`: a candidate on a grid lies between the interval's ends;
* `ten_zpow_estimate_lt`: the decimal exponent estimate `⌊t·1233/4096⌋` is never far above
  `log₁₀ 2^t`, because `1233/4096` is just below `log₁₀ 2`;
* `fallback_within`: the seventeen-digit fallback lies strictly inside the interval;
* `shortest_inRounding`: the printed decimal has a positive significand and lies in the
  rounding interval.
-/

namespace PointerAccel.Binary

open BinaryFormat

/-! ## Scaled decimal quotients -/

theorem zpow_eq_div_toNat (a : ℚ) (e : Int) : a ^ e = a ^ e.toNat / a ^ (-e).toNat := by
  rcases le_or_gt 0 e with he | he
  · rw [show (-e).toNat = 0 by omega, pow_zero, div_one, ← zpow_natCast, Int.toNat_of_nonneg he]
  · rw [show e.toNat = 0 by omega, pow_zero, ← zpow_natCast, Int.toNat_of_nonneg (by omega),
      zpow_neg, one_div, inv_inv]

/-- `floorScaled`, `divisibleScaled` and `roundScaled` work on one natural quotient `N / D`
whose value is `x·2^e / 10^k`. -/
theorem scaledDecimal_quotient (x : Nat) (e k : Int) :
    ∃ N D : Nat, 0 < D ∧ floorScaled x e k = N / D ∧ divisibleScaled x e k = (N % D == 0) ∧
      roundScaled x e k = (2 * N + D) / (2 * D) ∧ (N : ℚ) / D = x * 2 ^ e / 10 ^ k := by
  refine ⟨x * Nat.pow 2 e.toNat * Nat.pow 10 (-k).toNat, Nat.pow 2 (-e).toNat * Nat.pow 10 k.toNat,
    Nat.mul_pos (Nat.pow_pos (by norm_num)) (Nat.pow_pos (by norm_num)), rfl, rfl, rfl, ?_⟩
  rw [zpow_eq_div_toNat 2 e, zpow_eq_div_toNat 10 k]
  simp only [Nat.pow_eq]
  push_cast
  field_simp

section Scaled

variable (x : Nat) (e k : Int)

theorem floorScaled_le : (floorScaled x e k : ℚ) ≤ x * 2 ^ e / 10 ^ k := by
  obtain ⟨N, D, -, hf, -, -, hv⟩ := scaledDecimal_quotient x e k
  rw [hf, ← hv]
  exact Nat.cast_div_le

theorem lt_floorScaled_add_one : (x : ℚ) * 2 ^ e / 10 ^ k < floorScaled x e k + 1 := by
  obtain ⟨N, D, hD, hf, -, -, hv⟩ := scaledDecimal_quotient x e k
  have hD' : (0 : ℚ) < D := by exact_mod_cast hD
  rw [hf, ← hv, div_lt_iff₀ hD']
  have h := Nat.lt_div_mul_add (a := N) hD
  have h' : (N : ℚ) < (N / D : Nat) * D + D := by exact_mod_cast h
  linarith

variable {x e k}

theorem floorScaled_eq_of_divisible (h : divisibleScaled x e k = true) :
    (floorScaled x e k : ℚ) = x * 2 ^ e / 10 ^ k := by
  obtain ⟨N, D, hD, hf, hdiv, -, hv⟩ := scaledDecimal_quotient x e k
  rw [hdiv, beq_iff_eq] at h
  rw [hf, ← hv, Nat.cast_div (Nat.dvd_of_mod_eq_zero h) (by exact_mod_cast hD.ne')]

theorem floorScaled_lt_of_not_divisible (h : divisibleScaled x e k = false) :
    (floorScaled x e k : ℚ) < x * 2 ^ e / 10 ^ k := by
  obtain ⟨N, D, hD, hf, hdiv, -, hv⟩ := scaledDecimal_quotient x e k
  have hD' : (0 : ℚ) < D := by exact_mod_cast hD
  rw [hdiv, beq_eq_false_iff_ne] at h
  rw [hf, ← hv, lt_div_iff₀ hD']
  have h1 := Nat.div_add_mod N D
  have h2 : N / D * D < N := by
    rw [Nat.mul_comm]
    omega
  exact_mod_cast h2

variable (x e k)

theorem roundScaled_bounds :
    (x : ℚ) * 2 ^ e / 10 ^ k - 1 / 2 < roundScaled x e k ∧
      (roundScaled x e k : ℚ) ≤ x * 2 ^ e / 10 ^ k + 1 / 2 := by
  obtain ⟨N, D, hD, -, -, hr, hv⟩ := scaledDecimal_quotient x e k
  have hD' : (0 : ℚ) < D := by exact_mod_cast hD
  have h1 := Nat.div_mul_le_self (2 * N + D) (2 * D)
  have h2 := Nat.lt_div_mul_add (a := 2 * N + D) (show 0 < 2 * D by omega)
  rw [hr, ← hv]
  generalize (2 * N + D) / (2 * D) = R at h1 h2
  have h1' : (R : ℚ) * (2 * D) ≤ 2 * N + D := by exact_mod_cast h1
  have h2' : (2 * N + D : ℚ) < R * (2 * D) + 2 * D := by exact_mod_cast h2
  have hmid : (N : ℚ) / D + 1 / 2 = (2 * N + D) / (2 * D) := by field_simp
  constructor
  · rw [show (N : ℚ) / D - 1 / 2 = (N : ℚ) / D + 1 / 2 - 1 by ring, hmid, sub_lt_iff_lt_add,
      div_lt_iff₀ (by positivity)]
    linarith
  · rw [hmid, le_div_iff₀ (by positivity)]
    exact h1'

end Scaled

theorem le_decimal_iff (a b : ℚ) (e k : Int) : a ≤ b * 10 ^ k / 2 ^ e ↔ a * 2 ^ e / 10 ^ k ≤ b := by
  rw [le_div_iff₀ (zpow_pos two_pos e), div_le_iff₀ (zpow_pos (by norm_num) k)]

theorem lt_decimal_iff (a b : ℚ) (e k : Int) : a < b * 10 ^ k / 2 ^ e ↔ a * 2 ^ e / 10 ^ k < b := by
  rw [lt_div_iff₀ (zpow_pos two_pos e), div_lt_iff₀ (zpow_pos (by norm_num) k)]

theorem decimal_le_iff (a b : ℚ) (e k : Int) : b * 10 ^ k / 2 ^ e ≤ a ↔ b ≤ a * 2 ^ e / 10 ^ k := by
  rw [div_le_iff₀ (zpow_pos two_pos e), le_div_iff₀ (zpow_pos (by norm_num) k)]

theorem decimal_lt_iff (a b : ℚ) (e k : Int) : b * 10 ^ k / 2 ^ e < a ↔ b < a * 2 ^ e / 10 ^ k := by
  rw [div_lt_iff₀ (zpow_pos two_pos e), lt_div_iff₀ (zpow_pos (by norm_num) k)]

/-! ## Candidates on a grid -/

/-- A candidate of the search lies between the ends of the interval, the ends themselves only
when they belong to it. -/
theorem candidate_within {lo v hi : Nat} {incl : Bool} {e : Int} {n d : Nat} {k : Int}
    (h : candidate lo v hi incl e n = some (d, k)) : Within lo hi incl e (d * 10 ^ k) := by
  unfold candidate at h
  dsimp only at h
  set k' := floorLog10 v e - n + 1
  set dlo := if incl && divisibleScaled lo e k' then floorScaled lo e k'
    else floorScaled lo e k' + 1 with hdlo_def
  set dhi := if !incl && divisibleScaled hi e k' then floorScaled hi e k' - 1
    else floorScaled hi e k' with hdhi_def
  split_ifs at h with hok
  obtain ⟨rfl, rfl⟩ := Prod.mk.inj (Option.some.inj h)
  have hdlo : dlo ≤ max dlo (min dhi (roundScaled v e k')) := le_max_left _ _
  have hdhi : max dlo (min dhi (roundScaled v e k')) ≤ dhi := max_le hok.1 (min_le_left _ _)
  generalize max dlo (min dhi (roundScaled v e k')) = d at hdlo hdhi
  rw [hdlo_def] at hdlo
  rw [hdhi_def] at hdhi hok
  set k := k'
  have hlo1 := lt_floorScaled_add_one lo e k
  have hhi0 := floorScaled_le hi e k
  constructor
  · cases incl
    · simp only [Bool.false_and, Bool.false_eq_true, if_false] at hdlo ⊢
      rw [lt_decimal_iff]
      have : (floorScaled lo e k : ℚ) + 1 ≤ d := by exact_mod_cast hdlo
      linarith
    · simp only [Bool.true_and, if_true] at hdlo ⊢
      rw [le_decimal_iff]
      cases hdiv : divisibleScaled lo e k
      · simp only [hdiv, Bool.false_eq_true, if_false] at hdlo
        have : (floorScaled lo e k : ℚ) + 1 ≤ d := by exact_mod_cast hdlo
        linarith
      · simp only [hdiv, if_true] at hdlo
        rw [← floorScaled_eq_of_divisible hdiv]
        exact_mod_cast hdlo
  · cases incl
    · simp only [Bool.not_false, Bool.true_and, Bool.false_eq_true, if_false] at hdhi hok ⊢
      rw [decimal_lt_iff]
      cases hdiv : divisibleScaled hi e k
      · simp only [hdiv, Bool.false_eq_true, if_false] at hdhi
        have hlt := floorScaled_lt_of_not_divisible hdiv
        have : (d : ℚ) ≤ floorScaled hi e k := by exact_mod_cast hdhi
        linarith
      · simp only [hdiv, if_true] at hdhi hok
        rw [← floorScaled_eq_of_divisible hdiv]
        have : d + 1 ≤ floorScaled hi e k := by omega
        have : (d : ℚ) + 1 ≤ floorScaled hi e k := by exact_mod_cast this
        linarith
    · simp only [Bool.not_true, Bool.false_and, Bool.false_eq_true, if_false, if_true] at hdhi ⊢
      rw [decimal_le_iff]
      have : (d : ℚ) ≤ floorScaled hi e k := by exact_mod_cast hdhi
      linarith

theorem candidate_of_searchDigits {lo v hi : Nat} {incl : Bool} {e : Int} {d : Nat} {k : Int} :
    ∀ {fuel n : Nat}, searchDigits lo v hi incl e fuel n = some (d, k) →
      ∃ n', candidate lo v hi incl e n' = some (d, k)
  | 0, _, h => by simp [searchDigits] at h
  | fuel + 1, n, h => by
    unfold searchDigits at h
    split at h
    · exact ⟨n, by simp_all⟩
    · exact candidate_of_searchDigits h

/-! ## Trailing zeros -/

theorem normalize_shift (sig : Nat) (exp10 : Int) :
    ∃ t : Nat, sig = (Digits.normalize sig exp10).sig * 10 ^ t ∧
      (Digits.normalize sig exp10).exp10 = exp10 + t := by
  fun_induction Digits.normalize sig exp10 with
  | case1 sig exp10 h ih =>
    obtain ⟨t, hs, he⟩ := ih
    refine ⟨t + 1, ?_, by rw [he]; push_cast; ring⟩
    rw [pow_succ, ← Nat.mul_assoc, ← hs]
    omega
  | case2 sig exp10 _ => exact ⟨0, by simp, by simp⟩

theorem normalize_value (sig : Nat) (exp10 : Int) :
    ((Digits.normalize sig exp10).sig : ℚ) * 10 ^ (Digits.normalize sig exp10).exp10 =
      sig * 10 ^ exp10 ∧ (0 < sig → 0 < (Digits.normalize sig exp10).sig) := by
  obtain ⟨t, hs, he⟩ := normalize_shift sig exp10
  refine ⟨?_, fun hpos => Nat.pos_of_mul_pos_right (hs ▸ hpos)⟩
  conv_rhs => rw [hs]
  rw [he, zpow_add₀ (by norm_num), zpow_natCast]
  push_cast
  ring

/-! ## The decimal exponent estimate -/

theorem fixLog10_le (x : Nat) (e : Int) : ∀ (fuel : Nat) (j : Int), fixLog10 x e fuel j ≤ j + fuel
  | 0, j => by simp [fixLog10]
  | fuel + 1, j => by
    unfold fixLog10
    have h₁ := fixLog10_le x e fuel (j - 1)
    have h₂ := fixLog10_le x e fuel (j + 1)
    split_ifs <;> push_cast <;> omega

theorem ten_pow_lt_of_log_bound {a c : Nat} (hc0 : 0 < c) (hc : 10 ^ a ≤ 2 ^ c) {j t : Nat}
    (h : c * j ≤ a * t) : 10 ^ j < 4 * 2 ^ t := by
  apply lt_of_pow_lt_pow_left₀ c (by positivity)
  calc (10 ^ j) ^ c = 10 ^ (c * j) := by rw [← pow_mul, mul_comm]
    _ ≤ 10 ^ (a * t) := Nat.pow_le_pow_right (by norm_num) h
    _ = (10 ^ a) ^ t := by rw [pow_mul]
    _ ≤ (2 ^ c) ^ t := Nat.pow_le_pow_left hc t
    _ = (2 ^ t) ^ c := by rw [← pow_mul, ← pow_mul, mul_comm]
    _ < (4 * 2 ^ t) ^ c :=
      Nat.pow_lt_pow_left (by have := Nat.two_pow_pos t; omega) (Nat.pos_iff_ne_zero.mp hc0)

theorem two_pow_lt_of_log_bound {a c : Nat} (hc : 2 ^ c ≤ 10 ^ (a + 1)) {i s : Nat}
    (h : a * s ≤ c * i) (hs : 10 ^ s < 4 ^ c) : 2 ^ s < 4 * 10 ^ i := by
  apply lt_of_pow_lt_pow_left₀ c (by positivity)
  calc (2 ^ s) ^ c = (2 ^ c) ^ s := by rw [← pow_mul, ← pow_mul, mul_comm]
    _ ≤ (10 ^ (a + 1)) ^ s := Nat.pow_le_pow_left hc s
    _ = 10 ^ (a * s) * 10 ^ s := by rw [← pow_mul, ← pow_add]; ring_nf
    _ ≤ 10 ^ (c * i) * 10 ^ s := Nat.mul_le_mul_right _ (Nat.pow_le_pow_right (by norm_num) h)
    _ < 10 ^ (c * i) * 4 ^ c := Nat.mul_lt_mul_of_pos_left hs (by positivity)
    _ = (4 * 10 ^ i) ^ c := by rw [mul_pow, ← pow_mul, Nat.mul_comm i c, Nat.mul_comm]

/-- The estimate `⌊t·1233/4096⌋` of `⌊log₁₀ 2^t⌋` is never far above it: `10` to its power is
below `4·2^t`, for every `t` from `-149` on. -/
theorem ten_zpow_estimate_lt (t : Int) (ht : -149 ≤ t) : (10 : ℚ) ^ (t * 1233 / 4096) < 4 * 2 ^ t := by
  have hj := Int.ediv_mul_le (t * 1233) (show (4096 : Int) ≠ 0 by norm_num)
  set j := t * 1233 / 4096
  rcases le_or_gt 0 t with ht0 | ht0
  · rcases lt_or_ge j 0 with hj0 | hj0
    · have h1 : (10 : ℚ) ^ j ≤ 10 ^ (-1 : Int) := zpow_le_zpow_right₀ (by norm_num) (by omega)
      have h2 : (1 : ℚ) ≤ 2 ^ t := one_le_zpow₀ (by norm_num) ht0
      norm_num at h1
      linarith
    · have h := ten_pow_lt_of_log_bound (j := j.toNat) (t := t.toNat) (by norm_num)
        (by decide +kernel : 10 ^ 1233 ≤ 2 ^ 4096) (by omega)
      rw [← Int.toNat_of_nonneg hj0, ← Int.toNat_of_nonneg ht0, zpow_natCast, zpow_natCast]
      exact_mod_cast h
  · have hs : 10 ^ (-t).toNat < 4 ^ 4096 :=
      lt_of_le_of_lt (Nat.pow_le_pow_right (by norm_num) (show (-t).toNat ≤ 149 by omega))
        (by decide +kernel)
    have h := two_pow_lt_of_log_bound (i := (-j).toNat)
      (by decide +kernel : 2 ^ 4096 ≤ 10 ^ (1233 + 1)) (by omega) hs
    have hj' : j = -((-j).toNat : Int) := by omega
    have ht' : t = -((-t).toNat : Int) := by omega
    have h' : ((2 ^ (-t).toNat : Nat) : ℚ) < 4 * ((10 ^ (-j).toNat : Nat) : ℚ) := by
      exact_mod_cast h
    push_cast at h'
    rw [hj', ht', zpow_neg, zpow_neg, zpow_natCast, zpow_natCast, ← one_div, ← div_eq_mul_inv,
      div_lt_div_iff₀ (by positivity) (by positivity)]
    linarith

/-! ## The printed decimal -/

section Printed

variable {m : Nat} {e : Int}

theorem inRounding_iff (m : Nat) (e : Int) (r : ℚ) :
    InRounding m e r ↔ Within (if m = 2 ^ 23 ∧ -149 < e then 4 * m - 1 else 4 * m - 2)
      (4 * m + 2) (m % 2 == 0) (e - 2) r := by
  rw [InRounding, roundingInterval_single]

theorem roundingLo_pos (hm : 0 < m) :
    0 < if m = 2 ^ 23 ∧ -149 < e then 4 * m - 1 else 4 * m - 2 := by
  split_ifs <;> omega

theorem fallback_grid_lt (hc : Canonical m e) (hm : 0 < m) :
    (10 : ℚ) ^ (floorLog10 (4 * m) (e - 2) - 16) < 2 * 2 ^ (e - 2) := by
  obtain ⟨hmlt, he, -, -⟩ := hc
  set E := e - 2
  set t : Int := (Nat.log2 (4 * m) : Int) + E
  have hlog : Nat.log2 (4 * m) < 26 := (Nat.log2_lt (by omega)).2 (by omega)
  have hlog' : 2 ≤ Nat.log2 (4 * m) := (Nat.le_log2 (by omega)).2 (by omega)
  have hK : floorLog10 (4 * m) E - 16 ≤ t * 1233 / 4096 - 8 := by
    have := fixLog10_le (4 * m) E 8 (t * 1233 / 4096)
    show fixLog10 (4 * m) E 8 (t * 1233 / 4096) - 16 ≤ _
    omega
  have hest := ten_zpow_estimate_lt t (by omega)
  calc (10 : ℚ) ^ (floorLog10 (4 * m) E - 16) ≤ 10 ^ (t * 1233 / 4096 - 8) :=
        zpow_le_zpow_right₀ (by norm_num) hK
    _ = 10 ^ (t * 1233 / 4096) / 10 ^ 8 := by rw [zpow_sub₀ (by norm_num), zpow_ofNat]
    _ < 4 * 2 ^ t / 10 ^ 8 := by gcongr
    _ ≤ 4 * 2 ^ (25 + E) / 10 ^ 8 := by gcongr; norm_num; omega
    _ = 2 ^ 27 / 10 ^ 8 * 2 ^ E := by rw [zpow_add₀ two_ne_zero]; ring
    _ < 2 * 2 ^ E := by
      apply mul_lt_mul_of_pos_right _ (zpow_pos two_pos E)
      norm_num

theorem roundScaled_near (v : Nat) (E K : Int) (hstep : (10 : ℚ) ^ K < 2 * 2 ^ E) :
    (v : ℚ) - 1 < roundScaled v E K * 10 ^ K / 2 ^ E ∧
      (roundScaled v E K : ℚ) * 10 ^ K / 2 ^ E < v + 1 := by
  set u : ℚ := 10 ^ K / 2 ^ E
  have hu : 0 < u := div_pos (zpow_pos (by norm_num) K) (zpow_pos two_pos E)
  have hu2 : u < 2 := by rw [div_lt_iff₀ (zpow_pos two_pos E)]; exact hstep
  obtain ⟨hd₁, hd₂⟩ := roundScaled_bounds v E K
  have hV : (v : ℚ) * 2 ^ E / 10 ^ K = v / u := (div_div_eq_mul_div _ _ _).symm
  rw [hV] at hd₁ hd₂
  have hx : (roundScaled v E K : ℚ) * 10 ^ K / 2 ^ E = roundScaled v E K * u := by ring
  rw [hx]
  generalize roundScaled v E K = d at hd₁ hd₂ ⊢
  have hlow : (v : ℚ) - u / 2 < d * u := by
    have := mul_lt_mul_of_pos_right hd₁ hu
    rw [sub_mul, div_mul_cancel₀ _ hu.ne'] at this
    linarith
  have hhigh : (d : ℚ) * u ≤ v + u / 2 := by
    have := mul_le_mul_of_nonneg_right hd₂ hu.le
    rw [add_mul, div_mul_cancel₀ _ hu.ne'] at this
    linarith
  constructor <;> linarith

/-- The fallback, the value rounded to the grid `10^(floorLog10 - 16)`, lies strictly inside
the rounding interval, whose ends are at least one unit of `2^(e-2)` from the value. -/
theorem fallback_within (hc : Canonical m e) (hm : 0 < m) :
    InRounding m e (roundScaled (4 * m) (e - 2) (floorLog10 (4 * m) (e - 2) - 16) *
      10 ^ (floorLog10 (4 * m) (e - 2) - 16)) := by
  obtain ⟨h₁, h₂⟩ := roundScaled_near (4 * m) (e - 2) _ (fallback_grid_lt hc hm)
  rw [inRounding_iff]
  apply Within.of_lt
  · have hlo : (if m = 2 ^ 23 ∧ -149 < e then 4 * m - 1 else 4 * m - 2) + 1 ≤ 4 * m := by
      split_ifs <;> omega
    have hlo' : ((if m = 2 ^ 23 ∧ -149 < e then 4 * m - 1 else 4 * m - 2 : Nat) : ℚ) + 1 ≤
        ((4 * m : Nat) : ℚ) := by exact_mod_cast hlo
    exact lt_of_le_of_lt (by linarith) h₁
  · exact h₂.trans (by push_cast; linarith)

/-- The decimal the printer chooses for a positive single `m·2^e` has a positive significand
and lies in the rounding interval of `m·2^e`. -/
theorem shortest_inRounding (hc : Canonical m e) (hm : 0 < m) :
    0 < (shortest single m e).sig ∧
      InRounding m e ((shortest single m e).sig * 10 ^ (shortest single m e).exp10) := by
  unfold shortest
  rw [roundingInterval_single]
  dsimp only
  split
  · rename_i d k hs
    obtain ⟨n, hcand⟩ := candidate_of_searchDigits hs
    have hw := candidate_within hcand
    obtain ⟨hval, hpos⟩ := normalize_value d k
    have hd : 0 < d := by
      have := hw.pos (roundingLo_pos hm)
      by_contra h0
      simp_all
    rw [hval, inRounding_iff]
    exact ⟨hpos hd, hw⟩
  · have hw := fallback_within hc hm
    obtain ⟨hval, hpos⟩ := normalize_value (roundScaled (4 * m) (e - 2)
      (floorLog10 (4 * m) (e - 2) - 16)) (floorLog10 (4 * m) (e - 2) - 16)
    have hd := (((inRounding_iff m e _).1 hw).pos (roundingLo_pos hm))
    rw [hval]
    refine ⟨hpos ?_, hw⟩
    by_contra h0
    simp_all

end Printed

end PointerAccel.Binary
