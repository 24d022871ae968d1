import Mathlib
import PointerAccel.Binary.Shortest
import PointerAccel.Proofs.Single.Rounding

/-!
# Rounding a rational to the nearest single

`BinaryFormat.roundRat` finds the binade of `num / den` from bit lengths, rounds the scaled
quotient half to even and moves a carry into the next binade. This module shows that it
rounds to nearest: every rational in the rounding interval of a positive single `m·2^e`,
the interval the shortest printer searches, rounds to that single.

* `divRoundEven_eq`: the half-even quotient is the integer within one half of the quotient,
  the even one on a tie;
* `scaledRound_eq`, `scaledFloor_lt_iff`: the two scaled quotients read as rationals;
* `binadeExp_bounds`: the binade found for `num / den` holds it, `2^(B+23) ≤ num/den < 2^(B+24)`;
* `roundRat_of_within`: a rational in the rounding interval of `m·2^e` rounds to `m·2^e`.
-/

namespace PointerAccel.Binary

open BinaryFormat

/-- A rational whose quotient by `2^e` lies between `lo` and `hi`, the ends included when
`incl`. -/
def Within (lo hi : Nat) (incl : Bool) (e : Int) (r : ℚ) : Prop :=
  (if incl then (lo : ℚ) ≤ r / 2 ^ e else (lo : ℚ) < r / 2 ^ e) ∧
    (if incl then r / 2 ^ e ≤ hi else r / 2 ^ e < hi)

namespace Within

variable {lo hi : Nat} {incl : Bool} {e : Int} {r : ℚ}

theorem lo_le (h : Within lo hi incl e r) : (lo : ℚ) ≤ r / 2 ^ e := by
  cases incl
  · exact le_of_lt h.1
  · exact h.1

theorem le_hi (h : Within lo hi incl e r) : r / 2 ^ e ≤ hi := by
  cases incl
  · exact le_of_lt h.2
  · exact h.2

theorem of_lt (h₁ : (lo : ℚ) < r / 2 ^ e) (h₂ : r / 2 ^ e < hi) : Within lo hi incl e r := by
  cases incl
  · exact ⟨h₁, h₂⟩
  · exact ⟨h₁.le, h₂.le⟩

theorem pos (h : Within lo hi incl e r) (hlo : 0 < lo) : 0 < r := by
  have h₁ : (0 : ℚ) < r / 2 ^ e := lt_of_lt_of_le (by exact_mod_cast hlo) h.lo_le
  exact (div_pos_iff_of_pos_right (zpow_pos two_pos e)).mp h₁

theorem incl_of_end (h : Within lo hi incl e r) (hend : r / 2 ^ e = lo ∨ r / 2 ^ e = hi) :
    incl = true := by
  cases incl
  · obtain ⟨h₁, h₂⟩ := h
    simp only [Bool.false_eq_true, if_false] at h₁ h₂
    rcases hend with hend | hend
    · rw [hend] at h₁
      exact absurd h₁ (lt_irrefl _)
    · rw [hend] at h₂
      exact absurd h₂ (lt_irrefl _)
  · rfl

end Within

/-! ## Half-even quotients -/

/-- The half-even quotient of `num / den` is the integer within one half of it, the even one
on a tie. -/
theorem divRoundEven_eq {num den n : Nat} (hden : 0 < den) (hlo : 2 * n * den ≤ 2 * num + den)
    (hhi : 2 * num ≤ 2 * n * den + den)
    (htie : 2 * n * den = 2 * num + den ∨ 2 * num = 2 * n * den + den → n % 2 = 0) :
    divRoundEven num den = n := by
  have hdiv := Nat.div_add_mod num den
  have hr := Nat.mod_lt num hden
  unfold divRoundEven
  dsimp only
  generalize num / den = q at hdiv ⊢
  generalize num % den = r at hdiv hr ⊢
  have hqn : q ≤ n := by
    by_contra h
    have := Nat.mul_le_mul_right den (show n + 1 ≤ q by omega)
    nlinarith
  have hnq : n ≤ q + 1 := by
    by_contra h
    have := Nat.mul_le_mul_right den (show q + 2 ≤ n by omega)
    nlinarith
  split_ifs with hup
  · by_contra hne
    obtain rfl : q = n := by omega
    have h2r : 2 * r ≤ den := by nlinarith
    have htie' : 2 * num = 2 * q * den + den := by
      rcases hup with hup | ⟨hup, -⟩
      · omega
      · nlinarith
    have := htie (.inr htie')
    omega
  · by_contra hne
    obtain rfl : n = q + 1 := by omega
    have heq : 2 * r = den := by
      have : den ≤ 2 * r := by nlinarith
      omega
    have hodd : q % 2 = 0 := by
      by_contra hodd
      exact hup (.inr ⟨heq, by omega⟩)
    have := htie (.inl (by nlinarith))
    omega

theorem divRoundEven_eq_of_rat {num den n : Nat} (hden : 0 < den)
    (hlo : (n : ℚ) - 1 / 2 ≤ num / den) (hhi : (num : ℚ) / den ≤ n + 1 / 2)
    (htie : (num : ℚ) / den = n - 1 / 2 ∨ (num : ℚ) / den = n + 1 / 2 → n % 2 = 0) :
    divRoundEven num den = n := by
  have hd : (0 : ℚ) < den := by exact_mod_cast hden
  have hlo' := (le_div_iff₀ hd).mp hlo
  have hhi' := (div_le_iff₀ hd).mp hhi
  refine divRoundEven_eq hden ?_ ?_ ?_
  · have h : (2 * n * den : ℚ) ≤ 2 * num + den := by linarith
    exact_mod_cast h
  · have h : (2 * num : ℚ) ≤ 2 * n * den + den := by linarith
    exact_mod_cast h
  · intro h
    apply htie
    rcases h with h | h
    · have h' : (2 * n * den : ℚ) = 2 * num + den := by exact_mod_cast h
      left
      field_simp
      linarith
    · have h' : (2 * num : ℚ) = 2 * n * den + den := by exact_mod_cast h
      right
      field_simp
      linarith

/-! ## The scaled quotients -/

theorem scaled_quotient (num den : Nat) (q : Int) (hden : 0 < den) :
    ∃ N D : Nat, 0 < D ∧ scaledRound num den q = divRoundEven N D ∧
      scaledFloor num den q = N / D ∧ (N : ℚ) / D = num / den / 2 ^ q := by
  unfold scaledRound scaledFloor
  by_cases hq : 0 ≤ q
  · refine ⟨num, den * Nat.pow 2 q.toNat, Nat.mul_pos hden (Nat.pow_pos (by norm_num)),
      by rw [if_pos hq], by rw [if_pos hq], ?_⟩
    have h2 : (2 : ℚ) ^ q = ((2 ^ q.toNat : Nat) : ℚ) := by
      rw [Nat.cast_pow, Nat.cast_ofNat, ← zpow_natCast, Int.toNat_of_nonneg hq]
    rw [h2, div_div, Nat.pow_eq, Nat.cast_mul]
  · refine ⟨num * Nat.pow 2 (-q).toNat, den, hden, by rw [if_neg hq], by rw [if_neg hq], ?_⟩
    have h2 : (2 : ℚ) ^ q = 1 / ((2 ^ (-q).toNat : Nat) : ℚ) := by
      rw [Nat.cast_pow, Nat.cast_ofNat, ← zpow_natCast, Int.toNat_of_nonneg (by omega),
        one_div, ← zpow_neg, neg_neg]
    rw [h2, Nat.pow_eq, Nat.cast_mul]
    field_simp

/-- `scaledRound num den q` is the integer within one half of `num / den / 2^q`, the even one
on a tie. -/
theorem scaledRound_eq {num den n : Nat} {q : Int} (hden : 0 < den)
    (hlo : (n : ℚ) - 1 / 2 ≤ num / den / 2 ^ q) (hhi : (num : ℚ) / den / 2 ^ q ≤ n + 1 / 2)
    (htie : (num : ℚ) / den / 2 ^ q = n - 1 / 2 ∨ (num : ℚ) / den / 2 ^ q = n + 1 / 2 →
      n % 2 = 0) :
    scaledRound num den q = n := by
  obtain ⟨N, D, hD, hround, -, hval⟩ := scaled_quotient num den q hden
  rw [← hval] at hlo hhi htie
  rw [hround]
  exact divRoundEven_eq_of_rat hD hlo hhi htie

theorem scaledFloor_lt_iff {num den k : Nat} {q : Int} (hden : 0 < den) :
    scaledFloor num den q < k ↔ (num : ℚ) / den / 2 ^ q < k := by
  obtain ⟨N, D, hD, -, hfloor, hval⟩ := scaled_quotient num den q hden
  have hD' : (0 : ℚ) < D := by exact_mod_cast hD
  rw [hfloor, ← hval, Nat.div_lt_iff_lt_mul hD, div_lt_iff₀ hD']
  exact_mod_cast Iff.rfl

/-! ## The binade -/

theorem two_zpow_log2_bounds {n : Nat} (hn : 0 < n) :
    (2 : ℚ) ^ (n.log2 : Int) ≤ n ∧ (n : ℚ) < 2 ^ ((n.log2 : Int) + 1) := by
  have h1 : 2 ^ n.log2 ≤ n := Nat.log2_self_le (Nat.ne_of_gt hn)
  have h2 : n < 2 ^ (n.log2 + 1) := Nat.lt_log2_self
  constructor
  · rw [zpow_natCast]
    exact_mod_cast h1
  · rw [show (n.log2 : Int) + 1 = ((n.log2 + 1 : Nat) : Int) by push_cast; rfl, zpow_natCast]
    exact_mod_cast h2

/-- The binade found for `num / den` holds it: `2^(B+23) ≤ num / den < 2^(B+24)`. The first
guess from the bit lengths is at most one binade too high, and the floor test corrects it. -/
theorem binadeExp_bounds {num den : Nat} (hnum : 0 < num) (hden : 0 < den) :
    (2 : ℚ) ^ (single.binadeExp num den + 23) ≤ num / den ∧
      (num : ℚ) / den < 2 ^ (single.binadeExp num den + 24) := by
  obtain ⟨ha, ha'⟩ := two_zpow_log2_bounds hnum
  obtain ⟨hb, hb'⟩ := two_zpow_log2_bounds hden
  have hd : (0 : ℚ) < den := by exact_mod_cast hden
  set q₀ : Int := (Nat.log2 num : Int) - Nat.log2 den - 23 with hq₀
  have hlow : (2 : ℚ) ^ (q₀ + 22) < num / den := by
    rw [lt_div_iff₀ hd]
    calc (2 : ℚ) ^ (q₀ + 22) * den < 2 ^ (q₀ + 22) * 2 ^ ((Nat.log2 den : Int) + 1) :=
          mul_lt_mul_of_pos_left hb' (zpow_pos (by norm_num) _)
      _ = 2 ^ (Nat.log2 num : Int) := by rw [← zpow_add₀ two_ne_zero]; congr 1; omega
      _ ≤ num := ha
  have hhigh : (num : ℚ) / den < 2 ^ (q₀ + 24) := by
    rw [div_lt_iff₀ hd]
    calc (num : ℚ) < 2 ^ ((Nat.log2 num : Int) + 1) := ha'
      _ = 2 ^ (q₀ + 24) * 2 ^ (Nat.log2 den : Int) := by
          rw [← zpow_add₀ two_ne_zero]; congr 1; omega
      _ ≤ 2 ^ (q₀ + 24) * den := mul_le_mul_of_nonneg_left hb (zpow_pos (by norm_num) _).le
  have hguess : binadeExp single num den =
      if scaledFloor num den q₀ < single.hidden then q₀ - 1 else q₀ := rfl
  have hfloor : scaledFloor num den q₀ < single.hidden ↔ (num : ℚ) / den < 2 ^ (q₀ + 23) := by
    rw [show single.hidden = 2 ^ 23 from rfl, scaledFloor_lt_iff hden, div_lt_iff₀
      (zpow_pos (by norm_num) _), zpow_add₀ two_ne_zero, mul_comm]
    norm_num
  rw [hguess]
  split_ifs with h
  · rw [hfloor] at h
    refine ⟨?_, ?_⟩
    · rw [show q₀ - 1 + 23 = q₀ + 22 by omega]
      exact hlow.le
    · rwa [show q₀ - 1 + 24 = q₀ + 23 by omega]
  · rw [hfloor] at h
    exact ⟨not_lt.mp h, hhigh⟩

/-! ## The rounding interval of a single -/

theorem roundingInterval_single (m : Nat) (e : Int) :
    roundingInterval single m e =
      (if m = 2 ^ 23 ∧ -149 < e then 4 * m - 1 else 4 * m - 2, 4 * m, 4 * m + 2, m % 2 == 0) := by
  have hh : single.hidden = 2 ^ 23 := rfl
  have hmin : single.minExp = -149 := by decide
  simp only [roundingInterval, hh, hmin]

/-- A rational in the rounding interval of the single `m·2^e`. -/
def InRounding (m : Nat) (e : Int) (r : ℚ) : Prop :=
  Within (roundingInterval single m e).1 (roundingInterval single m e).2.2.1
    (roundingInterval single m e).2.2.2 (e - 2) r

theorem two_zpow_lt_mul_iff (a t : Int) (x : ℚ) : (2 : ℚ) ^ (a + t) < x * 2 ^ t ↔ 2 ^ a < x := by
  rw [zpow_add₀ two_ne_zero]
  exact mul_lt_mul_iff_of_pos_right (zpow_pos two_pos t)

theorem mul_lt_two_zpow_iff (a t : Int) (x : ℚ) : x * 2 ^ t < 2 ^ (a + t) ↔ x < 2 ^ a := by
  rw [zpow_add₀ two_ne_zero]
  exact mul_lt_mul_iff_of_pos_right (zpow_pos two_pos t)

theorem two_zpow_lt_two_zpow {a b : Int} (h : (2 : ℚ) ^ a < 2 ^ b) : a < b :=
  (zpow_lt_zpow_iff_right₀ (by norm_num : (1 : ℚ) < 2)).mp h

section Interval

variable {m num den : Nat} {e : Int}

theorem InRounding.bounds (hm : 0 < m) (hw : InRounding m e ((num : ℚ) / den)) :
    (if m = 2 ^ 23 ∧ -149 < e then (4 * m - 1 : ℚ) else 4 * m - 2) ≤ num / den / 2 ^ (e - 2) ∧
      (num : ℚ) / den / 2 ^ (e - 2) ≤ 4 * m + 2 := by
  unfold InRounding at hw
  rw [roundingInterval_single] at hw
  refine ⟨?_, by exact_mod_cast hw.le_hi⟩
  have h := hw.lo_le
  split_ifs at h ⊢ <;> push_cast [Nat.cast_sub (show 1 ≤ 4 * m by omega),
    Nat.cast_sub (show 2 ≤ 4 * m by omega)] at h <;> exact h

theorem InRounding.even_of_end (hm : 0 < m) (hw : InRounding m e ((num : ℚ) / den))
    (hend : (num : ℚ) / den / 2 ^ (e - 2) = 4 * m - 2 ∨ (num : ℚ) / den / 2 ^ (e - 2) = 4 * m + 2) :
    m % 2 = 0 := by
  have hb := hw.bounds hm
  unfold InRounding at hw
  rw [roundingInterval_single] at hw
  have hincl := hw.incl_of_end (by
    rcases hend with hend | hend
    · left
      split_ifs at hb ⊢ with h
      · linarith [hb.1]
      · push_cast [Nat.cast_sub (show 2 ≤ 4 * m by omega)]
        exact hend
    · right
      push_cast
      exact hend)
  simpa using hincl

theorem binade_of_inRounding (hc : Canonical m e) (hm : 0 < m) (hnum : 0 < num) (hden : 0 < den)
    (hw : InRounding m e ((num : ℚ) / den)) :
    max (single.binadeExp num den) (-149) = e ∨
      (max (single.binadeExp num den) (-149) = e - 1 ∧ m = 2 ^ 23 ∧ -149 < e ∧
        (num : ℚ) / den / 2 ^ (e - 2) < 2 ^ (25 : Int)) := by
  obtain ⟨hmlt, he, he', hnorm⟩ := hc
  obtain ⟨hB, hB'⟩ := binadeExp_bounds hnum hden
  obtain ⟨hlo, hhi⟩ := hw.bounds hm
  set B := single.binadeExp num den
  set x := (num : ℚ) / den / 2 ^ (e - 2) with hx
  have hr : (num : ℚ) / den = x * 2 ^ (e - 2) := by rw [hx]; field_simp
  rw [hr] at hB hB'
  have hm' : (m : ℚ) + 1 ≤ 2 ^ 24 := by exact_mod_cast (show m + 1 ≤ 2 ^ 24 by omega)
  have hBe : B ≤ e := by
    have hx26 : x < 2 ^ (26 : Int) := by norm_num; linarith
    have h := (mul_lt_two_zpow_iff 26 (e - 2) x).mpr hx26
    have := two_zpow_lt_two_zpow (lt_of_le_of_lt hB h)
    omega
  by_cases hbig : 2 ^ 23 < m
  · have hm23 : ¬ (m = 2 ^ 23 ∧ -149 < e) := fun h => by omega
    rw [if_neg hm23] at hlo
    have hm'' : (2 : ℚ) ^ 23 + 1 ≤ m := by exact_mod_cast (show 2 ^ 23 + 1 ≤ m by omega)
    have hx25 : (2 : ℚ) ^ (25 : Int) < x := by norm_num; linarith
    have h := (two_zpow_lt_mul_iff 25 (e - 2) x).mpr hx25
    have := two_zpow_lt_two_zpow (lt_trans h hB')
    left
    omega
  by_cases hbot : m = 2 ^ 23 ∧ -149 < e
  · obtain ⟨rfl, he149⟩ := hbot
    rw [if_pos ⟨rfl, he149⟩] at hlo
    have hx24 : (2 : ℚ) ^ (24 : Int) < x := by norm_num at hlo ⊢; linarith
    have h := (two_zpow_lt_mul_iff 24 (e - 2) x).mpr hx24
    have := two_zpow_lt_two_zpow (lt_trans h hB')
    by_cases hBe' : B = e
    · left
      omega
    · right
      refine ⟨by omega, rfl, he149, ?_⟩
      rw [← mul_lt_two_zpow_iff 25 (e - 2) x]
      rwa [show (25 : Int) + (e - 2) = B + 24 by omega]
  · left
    omega

theorem scaledRound_of_inRounding (hm : 0 < m) (hden : 0 < den)
    (hw : InRounding m e ((num : ℚ) / den)) : scaledRound num den e = m := by
  obtain ⟨hlo, hhi⟩ := hw.bounds hm
  have hq : (num : ℚ) / den / 2 ^ e = (num : ℚ) / den / 2 ^ (e - 2) / 4 := by
    rw [zpow_sub₀ two_ne_zero]
    field_simp
    norm_num
  have hlo' : (4 * m - 2 : ℚ) ≤ num / den / 2 ^ (e - 2) := by
    split_ifs at hlo <;> linarith
  apply scaledRound_eq hden
  · rw [hq]; linarith
  · rw [hq]; linarith
  · intro htie
    apply hw.even_of_end hm
    rw [hq] at htie
    rcases htie with h | h
    · left; linarith
    · right; linarith

theorem scaledRound_below_of_inRounding (hden : 0 < den) (he : -149 < e)
    (hw : InRounding (2 ^ 23) e ((num : ℚ) / den))
    (hx : (num : ℚ) / den / 2 ^ (e - 2) < 2 ^ (25 : Int)) : scaledRound num den (e - 1) = 2 ^ 24 := by
  obtain ⟨hlo, -⟩ := hw.bounds (by norm_num)
  rw [if_pos ⟨rfl, he⟩] at hlo
  have hq : (num : ℚ) / den / 2 ^ (e - 1) = (num : ℚ) / den / 2 ^ (e - 2) / 2 := by
    rw [show e - 1 = e - 2 + 1 by omega, zpow_add_one₀ two_ne_zero]
    field_simp
  apply scaledRound_eq hden
  · rw [hq]; push_cast at hlo ⊢; linarith
  · rw [hq]; norm_num at hx ⊢; linarith
  · intro _
    norm_num

theorem roundRat_of_inRounding (neg : Bool) (hc : Canonical m e) (hm : 0 < m) (hnum : 0 < num)
    (hden : 0 < den) (hw : InRounding m e ((num : ℚ) / den)) :
    single.roundRat neg num den = single.pack neg m e := by
  have hh : single.hidden = 2 ^ 23 := rfl
  have hmax : single.maxExp = 104 := by decide
  have hmin : single.minExp = -149 := by decide
  unfold roundRat
  rw [if_neg (Nat.ne_of_gt hnum), hmin]
  dsimp only
  rcases binade_of_inRounding hc hm hnum hden hw with hq | ⟨hq, rfl, he, hx⟩
  · rw [hq, scaledRound_of_inRounding hm hden hw, hh]
    have hcarry : decide (m = 2 * 2 ^ 23) = false := by
      have := hc.1
      simp only [decide_eq_false_iff_not]
      omega
    simp only [hcarry, Bool.false_eq_true, if_false]
    rw [if_neg (by rw [hmax]; exact not_lt.mpr hc.2.2.1)]
  · rw [hq, scaledRound_below_of_inRounding hden he hw hx, hh]
    simp only [show decide ((2 : Nat) ^ 24 = 2 * 2 ^ 23) = true by decide, if_true,
      sub_add_cancel]
    rw [if_neg (by rw [hmax]; exact not_lt.mpr hc.2.2.1)]

end Interval

end PointerAccel.Binary
