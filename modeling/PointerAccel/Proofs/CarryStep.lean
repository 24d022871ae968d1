import Mathlib
import PointerAccel.Proofs.Carry
import PointerAccel.Proofs.Single.Monotone

/-!
# One rounding step of the carry

A carry step scales each axis, adds the pointer carry, rounds half away from zero and converts
the rounding to a 32-bit delta. The conversion keeps `[-2^31, 2^31)` and sends everything else
to the sentinel `-2^31`; since the sentinel is the bottom of that range, a step faults exactly
when some axis rounds to NaN or outside the open interval `(-2^31, 2^31)`. When no axis faults,
each delta is its rounding as an integer and each remainder is the exact rest, at most one
half. The wheel is scaled by the wheel ratio alone.

* `toOutput_of_between`: a finite whole single in `[-2^31, 2^31)` converts to its integer part;
* `toOutput_roundAway_eq_sentinel_iff`: an axis gives the sentinel iff its value is NaN or
  rounds outside `(-2^31, 2^31)`;
* `CarryState.rounding_step_is_exact`: the fault condition, the exact split of every axis of a
  step that does not fault, and the wheel's independence of the carry and the gain.
-/

namespace PointerAccel

open PointerAccel.Binary

/-! ## Converting a rounding -/

theorem RawSample.hasSentinel_iff (s : RawSample) :
    s.hasSentinel = true ↔ ∃ a, s.along a = sentinel := by
  simp only [RawSample.hasSentinel, RawSample.fields, List.any_cons, List.any_nil, Bool.or_false,
    Bool.or_eq_true, beq_iff_eq]
  constructor
  · rintro (h | h | h)
    · exact ⟨.x, h⟩
    · exact ⟨.y, h⟩
    · exact ⟨.wheel, h⟩
  · rintro ⟨a, h⟩
    cases a
    · exact .inl h
    · exact .inr (.inl h)
    · exact .inr (.inr h)

theorem singleOfInt_sentinel :
    singleRat (singleOfInt sentinel) = -2 ^ 31 ∧ (singleOfInt sentinel).isFinite = true := by
  have h := singleRat_singleOfInt (z := sentinel) (by decide)
  rw [show ((sentinel : Int) : ℚ) = -2 ^ 31 by norm_num [sentinel]] at h
  exact h

theorem singleOfInt_neg_sentinel :
    singleRat (singleOfInt (-sentinel)) = 2 ^ 31 ∧ (singleOfInt (-sentinel)).isFinite = true := by
  have h := singleRat_singleOfInt (z := -sentinel) (by decide)
  rw [show ((-sentinel : Int) : ℚ) = 2 ^ 31 by norm_num [sentinel]] at h
  exact h

/-- A finite single holding a whole number of `[-2^31, 2^31)` passes both range comparisons and
converts to its integer part. -/
theorem toOutput_of_between {r : Float32} (hr : r.isFinite = true)
    (hint : ((decodeSingle r).truncInt : ℚ) = singleRat r) (hlo : -2 ^ 31 ≤ singleRat r)
    (hhi : singleRat r < 2 ^ 31) : (toOutput r).toInt = (decodeSingle r).truncInt := by
  obtain ⟨hmin, hminf⟩ := singleOfInt_sentinel
  obtain ⟨hmax, hmaxf⟩ := singleOfInt_neg_sentinel
  have hge : singleOfInt sentinel ≤ r := (le_iff_singleRat_le hminf hr).2 (by rw [hmin]; exact hlo)
  have hlt : r < singleOfInt (-sentinel) := (lt_iff_singleRat_lt hr hmaxf).2 (by rw [hmax]; exact hhi)
  rw [← hint] at hlo hhi
  unfold toOutput
  rw [if_pos (by simp [hge, hlt])]
  exact Int32.toInt_ofInt_of_le (by exact_mod_cast hlo) (by exact_mod_cast hhi)

theorem finite_of_roundAway_isFinite {x : Float32} (h : (roundAway x).isFinite = true) :
    ∃ neg m e, decodeSingle x = .finite neg m e := by
  by_contra hnot
  have hnf : ∀ neg m e, decodeSingle x ≠ .finite neg m e := fun n m e h => hnot ⟨n, m, e, h⟩
  rw [roundAway_of_not_finite hnf, isFinite_iff_decodeSingle] at h
  exact hnot h

/-- An axis converts to the sentinel iff its value is NaN or its rounding lies outside the open
interval `(-2^31, 2^31)`: the half-open range the conversion keeps loses only its bottom, which
is the sentinel itself. -/
theorem toOutput_roundAway_eq_sentinel_iff (x : Float32) :
    (toOutput (roundAway x)).toInt = sentinel ↔
      x.isNaN = true ∨ ¬ ((roundAway x).isFinite = true ∧ |singleRat (roundAway x)| < 2 ^ 31) := by
  constructor
  · intro h
    by_contra hin
    obtain ⟨-, hfin, habs⟩ : x.isNaN = false ∧ (roundAway x).isFinite = true ∧
        |singleRat (roundAway x)| < 2 ^ 31 := by
      simpa only [not_or, Bool.not_eq_true, not_not] using hin
    obtain ⟨neg, m, e, hx⟩ := finite_of_roundAway_isFinite hfin
    obtain ⟨-, -, hint, -⟩ := roundAway_split hx
    obtain ⟨hlo, hhi⟩ := abs_lt.1 habs
    rw [toOutput_of_between hfin hint hlo.le hhi] at h
    rw [← hint, h] at hlo
    norm_num [sentinel] at hlo
  · intro h
    by_contra hne
    obtain ⟨⟨neg, m, e, hx⟩, hlo, hhi⟩ := finite_of_toOutput_ne_sentinel hne
    have hxf : x.isFinite = true := (isFinite_iff_decodeSingle x).2 ⟨neg, m, e, hx⟩
    have hfin := roundAway_isFinite hxf
    obtain ⟨-, -, hint, -⟩ := roundAway_split hx
    rw [toOutput_of_between hfin hint hlo hhi] at hne
    have hlo' : -2 ^ 31 < singleRat (roundAway x) := by
      rcases lt_or_eq_of_le hlo with hlt | heq
      · exact hlt
      · exfalso
        apply hne
        have : ((decodeSingle (roundAway x)).truncInt : ℚ) = ((sentinel : Int) : ℚ) := by
          rw [hint, ← heq]
          norm_num [sentinel]
        exact_mod_cast this
    rcases h with hnan | hout
    · rw [isNaN_false_of_isFinite hxf] at hnan
      cases hnan
    · exact hout ⟨hfin, abs_lt.2 ⟨hlo', hhi⟩⟩

/-! ## The step -/

/-- The value a carry step rounds along an axis: the scaled motion plus the carry on the
pointer axes, the wheel delta times the wheel ratio on the wheel. -/
def CarryState.preRound (c : CarryState) (dx dy dwheel g : Float32) (p : ParamSet) :
    Axis → Float32
  | .x => dx * g * p.sensitivity + c.x
  | .y => dy * g * p.sensitivity + c.y
  | .wheel => dwheel * p.wheelRatio

theorem CarryState.apply_output_along (c : CarryState) (dx dy dwheel g : Float32) (p : ParamSet)
    (a : Axis) :
    (c.apply dx dy dwheel g p).output.along a =
      (toOutput (roundAway (c.preRound dx dy dwheel g p a))).toInt := by
  cases a <;> rfl

theorem CarryState.apply_remainder_along (c : CarryState) (dx dy dwheel g : Float32)
    (p : ParamSet) (a : Axis) :
    (c.apply dx dy dwheel g p).remainder.along a =
      c.preRound dx dy dwheel g p a - roundAway (c.preRound dx dy dwheel g p a) := by
  cases a <;> rfl

/-- One rounding step of the carry: it faults iff some axis value is NaN or rounds outside
`(-2^31, 2^31)`; when it does not, every delta is the rounding of its axis as an integer and
every remainder is the exact rest, at most one half; and the wheel delta depends on neither the
carry nor the gain. -/
theorem CarryState.rounding_step_is_exact (c : CarryState) (dx dy dwheel g : Float32)
    (p : ParamSet) :
    ((c.apply dx dy dwheel g p).isFaulted = true ↔
        ∃ a, (c.preRound dx dy dwheel g p a).isNaN = true ∨
          ¬ ((roundAway (c.preRound dx dy dwheel g p a)).isFinite = true ∧
            |singleRat (roundAway (c.preRound dx dy dwheel g p a))| < 2 ^ 31)) ∧
      ((c.apply dx dy dwheel g p).isFaulted = false → ∀ a,
        ((c.apply dx dy dwheel g p).output.along a : ℚ) =
            singleRat (roundAway (c.preRound dx dy dwheel g p a)) ∧
          singleRat ((c.apply dx dy dwheel g p).remainder.along a) =
            singleRat (c.preRound dx dy dwheel g p a) -
              singleRat (roundAway (c.preRound dx dy dwheel g p a)) ∧
          |singleRat ((c.apply dx dy dwheel g p).remainder.along a)| ≤ 1 / 2) ∧
      ∀ (c' : CarryState) (dx' dy' g' : Float32),
        (c'.apply dx' dy' dwheel g' p).output.dwheel = (c.apply dx dy dwheel g p).output.dwheel := by
  refine ⟨?_, fun hf a => ?_, fun c' dx' dy' g' => ?_⟩
  · rw [Carried.isFaulted, RawSample.hasSentinel_iff]
    simp only [CarryState.apply_output_along, toOutput_roundAway_eq_sentinel_iff]
  · have hne : (toOutput (roundAway (c.preRound dx dy dwheel g p a))).toInt ≠ sentinel := by
      rw [← CarryState.apply_output_along]
      exact RawSample.along_ne_sentinel hf a
    obtain ⟨⟨neg, m, e, hx⟩, hlo, hhi⟩ := finite_of_toOutput_ne_sentinel hne
    obtain ⟨hsplit, hhalf, hint, -⟩ := roundAway_split hx
    have hfin := roundAway_isFinite ((isFinite_iff_decodeSingle _).2 ⟨neg, m, e, hx⟩)
    rw [CarryState.apply_output_along, CarryState.apply_remainder_along,
      toOutput_of_between hfin hint hlo hhi, hint]
    refine ⟨rfl, ?_, hhalf⟩
    rw [← hsplit, hint]
    ring
  · have h' := c'.apply_output_along dx' dy' dwheel g' p .wheel
    have h := c.apply_output_along dx dy dwheel g p .wheel
    rw [show c'.preRound dx' dy' dwheel g' p .wheel = c.preRound dx dy dwheel g p .wheel from rfl,
      ← h] at h'
    exact Int32.toInt_inj.1 h'

theorem half_step_carries :
    ((CarryState.mk 0.0 0.0 0.0).apply 2.5 (-2.5) 0.0 1.0 .default).isFaulted = false ∧
      (((CarryState.mk 0.0 0.0 0.0).apply 2.5 (-2.5) 0.0 1.0 .default).output.along .x : ℚ) =
        singleRat (roundAway ((CarryState.mk 0.0 0.0 0.0).preRound 2.5 (-2.5) 0.0 1.0 .default .x)) :=
  have h : ((CarryState.mk 0.0 0.0 0.0).apply 2.5 (-2.5) 0.0 1.0 .default).isFaulted = false := by
    decide +kernel
  ⟨h, ((CarryState.rounding_step_is_exact _ _ _ _ _ _).2.1 h .x).1⟩

end PointerAccel
