import Mathlib
import PointerAccel.Proofs.GainShape
import PointerAccel.Curves.Table

/-!
# Sampled gain tables

`sampleTableWith` checks its range and step count and then samples the gain map at the rates
`lo + step·i` with `step = (hi - lo) / (steps - 1)`, each difference, quotient, product and sum
rounded to a single. When the width `hi - lo` is itself a finite single the step is finite and
not below zero, and everything follows from the monotonicity of rounded arithmetic: the rates
rise with `i`, none is NaN, the first is `lo`, every point's gain is the gain map at its rate,
the table is monotone wherever the curve has the shape of `gain_curve_is_monotone` and no rate
has overflowed, and `maxGain` is the largest gain other than NaN.

The width is not checked, though: two finite bounds can be further apart than the largest
single. Then the step is `+∞` and the first rate, `lo + ∞·0`, is NaN.

* `sampleTableWith_eq_ok`: a valid request samples the grid `gridRate`;
* `GridRequest`: a valid request whose width is finite;
* `GridRequest.gridRate_mono`, `GridRequest.gridRate_zero`: the grid rises from `lo`;
* `IsMaxGain.maxNum`, `foldl_isMaxGain`, `maxGain_spec`: the fold of `maxGain`;
* `isMonotonic_of_pairwise`: gains in order make a monotone table;
* `table_samples_validated_range`: the table of a request whose width is finite.
-/

namespace PointerAccel

open PointerAccel.Binary

/-! ## The grid -/

/-- The distance between two sampled rates. -/
def gridStep (lo hi : Float32) (steps : Nat) : Float32 :=
  (hi - lo) / singleOfInt ((steps : Int) - 1)

/-- The `i`-th sampled rate. -/
def gridRate (lo hi : Float32) (steps i : Nat) : Float32 :=
  lo + gridStep lo hi steps * singleOfInt (i : Int)

theorem sampleTableWith_eq_ok (lib : Libm) (p : ParamSet) {lo hi : Float32} {steps : Nat}
    (hlo : lo.isFinite = true) (hhi : hi.isFinite = true) (hlt : lo < hi) (h2 : 2 ≤ steps) :
    sampleTableWith lib p lo hi steps = .ok ((List.range steps).map fun i =>
      ⟨gridRate lo hi steps i, gainAtWith lib (gridRate lo hi steps i) p⟩) := by
  unfold sampleTableWith
  rw [if_neg (by simp [hlo, hhi, single_not_le_of_lt hlt]), if_neg (by omega)]
  rfl

/-! ## Integer conversion -/

theorem singleOfInt_mono {z z' : Int} (h : z ≤ z') : singleOfInt z ≤ singleOfInt z' := by
  rw [singleOfInt_eq_roundSingle, singleOfInt_eq_roundSingle]
  exact roundSingle_mono (Int.cast_le.2 h)

theorem zero_le_singleOfInt {z : Int} (h : 0 ≤ z) : 0.0 ≤ singleOfInt z := by
  rw [singleOfInt_eq_roundSingle]
  exact zero_le_roundSingle (Int.cast_nonneg h)

theorem one_le_singleOfInt {z : Int} (h : 1 ≤ z) : 1.0 ≤ singleOfInt z := by
  have hone : singleOfInt 1 = 1.0 := eq_of_unpack_eq rfl
  exact hone ▸ singleOfInt_mono h

theorem isFinite_singleOfInt {z : Int} (h0 : 0 ≤ z) (h : z ≤ 2 ^ 64) :
    (singleOfInt z).isFinite = true :=
  isFinite_of_le_of_le isZero_zero.isFinite
    (by decide : (singleOfInt 18446744073709551616).isFinite = true)
    (zero_le_singleOfInt h0) (singleOfInt_mono (by omega))

/-- A request that passes the table's checks and whose width `hi - lo` does not overflow: finite
bounds in increasing order, and between two and `2^64` samples (a count a machine word holds). -/
structure GridRequest (lo hi : Float32) (steps : Nat) : Prop where
  lo_finite : lo.isFinite = true
  hi_finite : hi.isFinite = true
  lo_lt_hi : lo < hi
  two_le_steps : 2 ≤ steps
  steps_le : steps ≤ 2 ^ 64
  width_finite : (hi - lo).isFinite = true

namespace GridRequest

variable {lo hi : Float32} {steps : Nat} (g : GridRequest lo hi steps)
include g

theorem zero_le_width : 0.0 ≤ hi - lo := by
  have hv := (lt_iff_singleRat_lt g.lo_finite g.hi_finite).1 g.lo_lt_hi
  exact (SameValue.le_iff (.refl _) (sub_sameValue_roundSingle g.hi_finite g.lo_finite)).2
    (zero_le_roundSingle (sub_nonneg.2 hv.le))

theorem one_le_divisor : 1.0 ≤ singleOfInt ((steps : Int) - 1) :=
  one_le_singleOfInt (by have := g.two_le_steps; omega)

theorem index_isFinite {i : Nat} (hidx : i < steps) : (singleOfInt (i : Int)).isFinite = true :=
  isFinite_singleOfInt (by omega) (by exact_mod_cast (hidx.trans_le g.steps_le).le)

theorem step_nonneg : 0.0 ≤ gridStep lo hi steps :=
  zero_le_div_single g.width_finite g.zero_le_width
    (zero_lt_of_one_le_single g.one_le_divisor)

theorem step_isFinite : (gridStep lo hi steps).isFinite = true :=
  isFinite_of_le_of_le isZero_zero.isFinite g.width_finite g.step_nonneg
    (div_le_self_single g.width_finite g.zero_le_width g.one_le_divisor)

theorem offset_mono {i j : Nat} (hij : i ≤ j) (hj : j < steps) :
    gridStep lo hi steps * singleOfInt (i : Int) ≤ gridStep lo hi steps * singleOfInt (j : Int) :=
  mul_le_mul_single g.step_isFinite g.step_isFinite (g.index_isFinite (hij.trans_lt hj))
    (g.index_isFinite hj) (single_le_refl (isNaN_false_of_isFinite g.step_isFinite))
    (singleOfInt_mono (by exact_mod_cast hij)) g.step_nonneg (zero_le_singleOfInt (by omega))

theorem gridRate_mono {i j : Nat} (hij : i ≤ j) (hj : j < steps) :
    gridRate lo hi steps i ≤ gridRate lo hi steps j := by
  unfold gridRate
  rw [add_comm lo, add_comm lo]
  exact add_le_add_right_single (g.offset_mono hij hj) g.lo_finite

theorem gridRate_isNaN {i : Nat} (hidx : i < steps) : (gridRate lo hi steps i).isNaN = false :=
  (isNaN_false_of_le (g.gridRate_mono le_rfl hidx)).1

/-- The first rate is `lo`: the offset `step·0` is a zero. Only a zero `lo` may change its sign,
`-0 + 0` being `+0`. -/
theorem gridRate_zero : SameValue (gridRate lo hi steps 0) lo := by
  have hz : IsZero (gridStep lo hi steps * singleOfInt ((0 : Nat) : Int)) :=
    isZero_mul_right g.step_isFinite ⟨_, unpack_singleOfInt_zero⟩
  obtain ⟨hval, hfin⟩ := add_isZero g.lo_finite hz
  exact sameValue_of_singleRat_eq hfin g.lo_finite hval

end GridRequest

theorem pairwise_map_range {β : Type} {R : β → β → Prop} (f : Nat → β) {n : Nat}
    (h : ∀ i j, i ≤ j → j < n → R (f i) (f j)) : ((List.range n).map f).Pairwise R := by
  rw [List.pairwise_map]
  exact List.pairwise_lt_range.imp_of_mem fun _ hj hij => h _ _ hij.le (List.mem_range.1 hj)

/-! ## The largest gain -/

/-- `m` is the largest gain of `pts` as `maxGain` takes it: the gain of one of the points, at
least every gain other than NaN, and NaN only when every gain is. -/
structure IsMaxGain (pts : List GainPoint) (m : Float32) : Prop where
  mem : ∃ pt ∈ pts, pt.gain = m
  le : ∀ pt ∈ pts, pt.gain.isNaN = false → pt.gain ≤ m
  nan : m.isNaN = true → ∀ pt ∈ pts, pt.gain.isNaN = true

section MaxNum

variable {a b : Float32}

theorem maxNum_eq_or : maxNum a b = a ∨ maxNum a b = b := by
  unfold maxNum
  split_ifs <;> simp

theorem le_maxNum_left (ha : a.isNaN = false) : a ≤ maxNum a b := by
  unfold maxNum
  rw [if_neg (by rw [ha]; decide)]
  split_ifs with hlt
  · exact single_le_of_lt hlt
  · exact single_le_refl ha

theorem le_maxNum_right (hb : b.isNaN = false) : b ≤ maxNum a b := by
  unfold maxNum
  split_ifs with ha hlt
  · exact single_le_refl hb
  · exact single_le_refl hb
  · exact single_le_of_not_lt (Bool.eq_false_iff.2 ha) hb hlt

theorem isNaN_of_maxNum (h : (maxNum a b).isNaN = true) : a.isNaN = true ∧ b.isNaN = true := by
  unfold maxNum at h
  split_ifs at h with ha hlt
  · exact ⟨ha, h⟩
  · rw [(isNaN_false_of_lt hlt).2] at h
    cases h
  · exact absurd h ha

end MaxNum

theorem isMaxGain_singleton (pt : GainPoint) : IsMaxGain [pt] pt.gain where
  mem := ⟨pt, List.mem_singleton_self pt, rfl⟩
  le q hq hn := by
    rw [List.mem_singleton.1 hq] at hn ⊢
    exact single_le_refl hn
  nan h q hq := by
    rw [List.mem_singleton.1 hq]
    exact h

/-- One step of the fold of `maxGain`: `maxNum` of the running maximum and the next gain is the
largest gain of the longer list. -/
theorem IsMaxGain.maxNum {pts : List GainPoint} {m : Float32} (h : IsMaxGain pts m)
    (pt : GainPoint) : IsMaxGain (pts ++ [pt]) (maxNum m pt.gain) where
  mem := by
    rcases @maxNum_eq_or m pt.gain with hm | hm <;> rw [hm]
    · obtain ⟨q, hq, rfl⟩ := h.mem
      exact ⟨q, List.mem_append_left _ hq, rfl⟩
    · exact ⟨pt, by simp, rfl⟩
  le q hq hn := by
    rcases List.mem_append.1 hq with hq | hq
    · have hle := h.le q hq hn
      exact single_le_trans hle (le_maxNum_left (isNaN_false_of_le hle).2)
    · rw [List.mem_singleton.1 hq] at hn ⊢
      exact le_maxNum_right hn
  nan hn q hq := by
    obtain ⟨hm, hg⟩ := isNaN_of_maxNum hn
    rcases List.mem_append.1 hq with hq | hq
    · exact h.nan hm q hq
    · rw [List.mem_singleton.1 hq]
      exact hg

/-- The fold of `maxGain` from a running maximum: with a step that is `maxNum` once there is a
maximum, the fold over the rest of the points ends at the largest gain of all of them. -/
theorem foldl_isMaxGain {f : Option Float32 → GainPoint → Option Float32}
    (hf : ∀ m pt, f (some m) pt = some (maxNum m pt.gain)) (rest : List GainPoint) :
    ∀ (seen : List GainPoint) (m : Float32), IsMaxGain seen m →
      ∃ m', rest.foldl f (some m) = some m' ∧ IsMaxGain (seen ++ rest) m' := by
  induction rest with
  | nil => exact fun seen m h => ⟨m, rfl, by rwa [List.append_nil]⟩
  | cons pt rest ih =>
    intro seen m h
    obtain ⟨m', hfold, hmax⟩ := ih (seen ++ [pt]) _ (h.maxNum pt)
    rw [List.append_assoc, List.singleton_append] at hmax
    exact ⟨m', by rw [List.foldl_cons, hf]; exact hfold, hmax⟩

theorem maxGain_spec {pts : List GainPoint} (hne : pts ≠ []) :
    ∃ m, maxGain pts = some m ∧ IsMaxGain pts m := by
  obtain ⟨pt, rest, rfl⟩ := List.exists_cons_of_ne_nil hne
  unfold maxGain
  rw [List.foldl_cons]
  exact foldl_isMaxGain (fun _ _ => rfl) rest [pt] pt.gain (isMaxGain_singleton pt)

/-! ## Monotone tables -/

theorem isMonotonic_of_pairwise :
    ∀ {pts : List GainPoint}, pts.Pairwise (fun a b => a.gain ≤ b.gain) → isMonotonic pts = true
  | [], _ => rfl
  | [_], _ => rfl
  | a :: b :: rest, h => by
    rw [List.pairwise_cons] at h
    simp only [isMonotonic, Bool.and_eq_true, decide_eq_true_eq]
    exact ⟨h.1 b List.mem_cons_self, isMonotonic_of_pairwise h.2⟩

/-! ## The table -/

/-- A table samples the range it checked. For finite bounds `lo < hi`, between two and `2^64`
samples and a width `hi - lo` that is a finite single, the table has `steps` points; their rates
rise, none is NaN and the first is `lo` (up to the sign of a zero); each point's gain is the
gain map at its rate; when the curve has the shape of `gain_curve_is_monotone` and no rate has
overflowed, the table is monotone; and `maxGain` is its largest gain. The engine's table is this
one with the platform's library, `sampleTable p = sampleTableWith .platform p`. -/
theorem table_samples_validated_range (lib : Libm) (p : ParamSet) {lo hi : Float32}
    {steps : Nat} (g : GridRequest lo hi steps) :
    ∃ pts, sampleTableWith lib p lo hi steps = .ok pts ∧ pts.length = steps ∧
      pts.Pairwise (fun a b => a.rate ≤ b.rate) ∧
      (∀ pt ∈ pts, pt.rate.isNaN = false ∧ pt.gain = gainAtWith lib pt.rate p) ∧
      (∃ first rest, pts = first :: rest ∧ SameValue first.rate lo) ∧
      (lib.Shaped → p.CurveShaped → (∀ pt ∈ pts, pt.rate.isFinite = true) →
        isMonotonic pts = true) ∧
      ∃ m, maxGain pts = some m ∧ IsMaxGain pts m := by
  obtain ⟨n, rfl⟩ : ∃ n, steps = n + 1 := ⟨steps - 1, by have := g.two_le_steps; omega⟩
  refine ⟨_, sampleTableWith_eq_ok lib p g.lo_finite g.hi_finite g.lo_lt_hi g.two_le_steps,
    by simp, pairwise_map_range _ fun i j hij hj => g.gridRate_mono hij hj, ?_, ?_, ?_,
    maxGain_spec (by simp)⟩
  · intro pt hpt
    obtain ⟨i, hidx, rfl⟩ := List.mem_map.1 hpt
    exact ⟨g.gridRate_isNaN (List.mem_range.1 hidx), rfl⟩
  · rw [List.range_succ_eq_map]
    exact ⟨_, _, rfl, g.gridRate_zero⟩
  · intro hlib hp hfin
    have hrate : ∀ i, i < n + 1 → (gridRate lo hi (n + 1) i).isFinite = true :=
      fun i hidx => hfin ⟨gridRate lo hi (n + 1) i, gainAtWith lib (gridRate lo hi (n + 1) i) p⟩
        (List.mem_map.2 ⟨i, List.mem_range.2 hidx, rfl⟩)
    exact isMonotonic_of_pairwise (pairwise_map_range _ fun i j hij hj =>
      gainAtWith_mono hlib hp (hrate i (hij.trans_lt hj)) (hrate j hj) (g.gridRate_mono hij hj))

/-- The default curve sampled at five rates from `0` to `100`: a monotone table of five points
with a largest gain. -/
theorem default_table_is_monotonic :
    ∃ pts, sampleTableWith ⟨fun _ => 0.0, fun _ _ => 1.0⟩ .default 0.0 100.0 5 = .ok pts ∧
      pts.length = 5 ∧ isMonotonic pts = true ∧ ∃ m, maxGain pts = some m ∧ IsMaxGain pts m := by
  have g : GridRequest 0.0 100.0 5 :=
    ⟨by decide, by decide, by decide, by decide, by norm_num, by decide⟩
  have hlib := Libm.shaped_const (single_le_refl isNaN_zero)
    (single_le_refl (isNaN_false_of_isFinite isFinite_one))
  have hp : ParamSet.default.CurveShaped :=
    ⟨by decide, by decide, fun h => absurd h (by decide), fun h => absurd h (by decide)⟩
  obtain ⟨pts, hpts, hlen, -, -, -, hmono, hmax⟩ :=
    table_samples_validated_range ⟨fun _ => 0.0, fun _ _ => 1.0⟩ .default g
  have hrates : ∀ pt ∈ pts, pt.rate.isFinite = true := by
    rw [sampleTableWith_eq_ok _ _ g.lo_finite g.hi_finite g.lo_lt_hi g.two_le_steps] at hpts
    cases hpts
    simp only [List.forall_mem_map, List.mem_range]
    decide
  exact ⟨pts, hpts, hlen, hmono hlib hp hrates, hmax⟩

/-- Two finite bounds whose distance overflows: sampling the passthrough curve from `-3·10^38`
to `3·10^38` at two rates, the width `hi - lo` is `+∞`, so is the step, and the first rate
`lo + ∞·0` is NaN. -/
theorem overflowing_width_gives_nan_rate :
    ∃ pts, sampleTable { ParamSet.default with mode := .passthrough } (-3.0e38) 3.0e38 2 =
      .ok pts ∧ ∃ first rest, pts = first :: rest ∧ first.rate.isNaN = true := by
  have hnan : (gridRate (-3.0e38) 3.0e38 2 0).isNaN = true := by decide +kernel
  refine ⟨_, sampleTableWith_eq_ok _ _ (by decide +kernel) (by decide +kernel)
    (by decide +kernel) le_rfl, ?_⟩
  rw [List.range_succ_eq_map]
  exact ⟨_, _, rfl, hnan⟩

end PointerAccel
