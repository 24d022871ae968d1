import Mathlib
import PointerAccel.Params.Json
import PointerAccel.Params.Yaml
import PointerAccel.Proofs.Single.Positive

/-!
# Validation reports the first failure

A parameter set passes validation exactly when its eight floats are finite, both caps are at
least zero (a negative zero is not below zero) and the wheel scale lies in `[0, 100]`. A set that
fails is refused with the first failure in checking order: the first non-finite field in field
order, else a negative speed cap, else a negative sensitivity cap, else the wheel scale out of
range. A parameter file, JSON or YAML, is accepted exactly with a decoded set that passes.

* `ParamName.find?_all_eq_some_iff`: the first field in field order with a property;
* `ParamSet.validate_of_nonFinite`, `ParamSet.validate_of_finite`: the two stages of the checks;
* `ParamSet.acceptDecoded_eq_ok_iff`: a file is decoded, then validated, whatever decoded it;
  `ParamSet.fromStrWith_eq_ok_iff` is the case of a format given as a parameter;
* `validation_reports_first_failure`: the checks, their order and the files together.
-/

namespace PointerAccel

open PointerAccel.Binary

namespace ParamName

theorem index_lt (n : ParamName) : n.index < all.length := by
  cases n <;> decide

theorem get_all_index (n : ParamName) : all.get ⟨n.index, n.index_lt⟩ = n := by
  cases n <;> rfl

theorem index_get_all : ∀ i : Fin all.length, (all.get i).index = i.val := by
  decide

theorem find?_all_eq_some_iff (q : ParamName → Bool) (n : ParamName) :
    all.find? q = some n ↔ q n = true ∧ ∀ m, m.index < n.index → q m = false := by
  rw [List.find?_eq_some_iff_getElem]
  constructor
  · rintro ⟨hq, i, hi, hget, hbefore⟩
    have hin : n.index = i := by
      rw [← hget]
      exact index_get_all ⟨i, hi⟩
    subst hin
    refine ⟨hq, fun m hm => ?_⟩
    have hm' := hbefore m.index hm
    have hlt := m.index_lt
    have hget' : all[m.index] = m := get_all_index m
    rw [hget'] at hm'
    simpa using hm'
  · rintro ⟨hq, hbefore⟩
    refine ⟨hq, n.index, n.index_lt, get_all_index n, fun j hj => ?_⟩
    have hjl : j < all.length := lt_trans hj n.index_lt
    have hidx : (all.get ⟨j, hjl⟩).index = j := index_get_all ⟨j, hjl⟩
    have hj' := hbefore (all.get ⟨j, hjl⟩) (by rw [hidx]; exact hj)
    rw [List.get_eq_getElem] at hj'
    simp [hj']

end ParamName

theorem not_lt_zero_iff {x : Float32} (hx : x.isFinite = true) : ¬ x < 0.0 ↔ 0.0 ≤ x := by
  have h0 : IsZero (0.0 : Float32) := ⟨_, unpack_zero⟩
  rw [lt_iff_singleRat_lt hx h0.isFinite, le_iff_singleRat_le h0.isFinite hx, not_lt]

namespace ParamSet

variable (p : ParamSet)

theorem validate_of_nonFinite {n : ParamName} (hn : (p.get n).isFinite = false)
    (hbefore : ∀ m, m.index < n.index → (p.get m).isFinite = true) :
    p.validate = .error (.nonFinite n) := by
  have hfind : ParamName.all.find? (fun n => !(p.get n).isFinite) = some n :=
    (ParamName.find?_all_eq_some_iff _ n).2 ⟨by simp [hn], fun m hm => by simp [hbefore m hm]⟩
  unfold validate
  rw [hfind]

theorem validate_of_finite (hfin : ∀ n, (p.get n).isFinite = true) :
    p.validate =
      if p.speedCap < 0.0 then .error (.negative .speedCap p.speedCap)
      else if p.sensitivityCap < 0.0 then .error (.negative .sensitivityCap p.sensitivityCap)
      else if 0.0 ≤ p.scrollsPerTick ∧ p.scrollsPerTick ≤ maxScrollsPerTick then .ok ()
      else .error (.outOfRange .scrollsPerTick p.scrollsPerTick 0.0 maxScrollsPerTick) := by
  have hnone : ParamName.all.find? (fun n => !(p.get n).isFinite) = none :=
    List.find?_eq_none.2 fun n _ => by simp [hfin n]
  unfold validate
  rw [hnone]
  dsimp only
  by_cases hs : p.speedCap < 0.0
  · simp [capFields, get, hs]
  · by_cases hc : p.sensitivityCap < 0.0
    · simp [capFields, get, hs, hc]
    · simp only [capFields, List.find?_cons, get, hs, hc, decide_false, List.find?_nil,
        if_false, Bool.and_eq_true, decide_eq_true_eq]

theorem validate_eq_ok_iff :
    p.validate = .ok () ↔ (∀ n, (p.get n).isFinite = true) ∧ 0.0 ≤ p.speedCap ∧
      0.0 ≤ p.sensitivityCap ∧ 0.0 ≤ p.scrollsPerTick ∧ p.scrollsPerTick ≤ maxScrollsPerTick := by
  by_cases hfin : ∀ n, (p.get n).isFinite = true
  · have hs := not_lt_zero_iff (hfin .speedCap)
    have hc := not_lt_zero_iff (hfin .sensitivityCap)
    simp only [get] at hs hc
    rw [validate_of_finite p hfin, ← hs, ← hc]
    by_cases h₁ : p.speedCap < 0.0 <;> by_cases h₂ : p.sensitivityCap < 0.0 <;>
      simp [h₁, h₂, hfin]
  · push Not at hfin
    obtain ⟨n, hn⟩ := hfin
    obtain ⟨m, hm⟩ : ∃ m, ParamName.all.find? (fun n => !(p.get n).isFinite) = some m :=
      Option.isSome_iff_exists.1 (List.find?_isSome.2 ⟨n, n.get_all_index ▸ List.get_mem _ _, by simpa using hn⟩)
    have hfail : p.validate = .error (.nonFinite m) := by
      unfold validate
      rw [hm]
    rw [hfail]
    simp only [reduceCtorEq, false_iff, not_and]
    exact fun h => absurd (h n) hn

theorem validate_eq_nonFinite_iff (n : ParamName) :
    p.validate = .error (.nonFinite n) ↔
      (p.get n).isFinite = false ∧ ∀ m, m.index < n.index → (p.get m).isFinite = true := by
  constructor
  · intro h
    cases hfind : ParamName.all.find? (fun n => !(p.get n).isFinite) with
    | some m =>
      have hv : p.validate = .error (.nonFinite m) := by
        unfold validate
        rw [hfind]
      rw [hv] at h
      cases h
      obtain ⟨hq, hbefore⟩ := (ParamName.find?_all_eq_some_iff _ _).1 hfind
      exact ⟨by simpa using hq, fun m hm => by simpa using hbefore m hm⟩
    | none =>
      have hfin : ∀ n, (p.get n).isFinite = true := fun n => by
        simpa using List.find?_eq_none.1 hfind n (n.get_all_index ▸ List.get_mem _ _)
      rw [validate_of_finite p hfin] at h
      split_ifs at h <;> simp at h
  · rintro ⟨hn, hbefore⟩
    exact validate_of_nonFinite p hn hbefore

/-- Whatever decoded a text, it is accepted with the decoded set exactly when that set
passes validation. -/
theorem acceptDecoded_eq_ok_iff {ε : Type} (wrap : ε → ParamError) (d : Except ε ParamSet) :
    acceptDecoded wrap d = .ok p ↔ d = .ok p ∧ p.validate = .ok () := by
  cases d with
  | error e => simp [acceptDecoded]
  | ok q =>
    simp only [acceptDecoded]
    constructor
    · intro h
      split at h
      · rename_i hv
        cases h
        exact ⟨rfl, hv⟩
      · cases h
    · rintro ⟨hd, hv⟩
      cases hd
      rw [hv]

theorem fromStrWith_eq_ok_iff (F : StructFormat) (wrap : String → ParamError) (s : String) :
    fromStrWith F wrap s = .ok p ↔ decodeWith F s = .ok p ∧ p.validate = .ok () :=
  p.acceptDecoded_eq_ok_iff wrap _

end ParamSet

/-- Validation is exact and reports the first failure. A set passes exactly when its eight
floats are finite, both caps are at least zero and the wheel scale lies in `[0, 100]`. Otherwise
the report names the first non-finite field in field order if there is one, else a negative
speed cap, else a negative sensitivity cap, else the wheel scale. A JSON or YAML text is
accepted exactly with a decoded set that passes, whether the libraries here decode it or any
format does. -/
theorem validation_reports_first_failure (p : ParamSet) :
    (p.validate = .ok () ↔ (∀ n, (p.get n).isFinite = true) ∧ 0.0 ≤ p.speedCap ∧
      0.0 ≤ p.sensitivityCap ∧ 0.0 ≤ p.scrollsPerTick ∧ p.scrollsPerTick ≤ maxScrollsPerTick) ∧
    (∀ n, p.validate = .error (.nonFinite n) ↔
      (p.get n).isFinite = false ∧ ∀ m, m.index < n.index → (p.get m).isFinite = true) ∧
    ((∀ n, (p.get n).isFinite = true) → p.speedCap < 0.0 →
      p.validate = .error (.negative .speedCap p.speedCap)) ∧
    ((∀ n, (p.get n).isFinite = true) → 0.0 ≤ p.speedCap → p.sensitivityCap < 0.0 →
      p.validate = .error (.negative .sensitivityCap p.sensitivityCap)) ∧
    ((∀ n, (p.get n).isFinite = true) → 0.0 ≤ p.speedCap → 0.0 ≤ p.sensitivityCap →
      ¬ (0.0 ≤ p.scrollsPerTick ∧ p.scrollsPerTick ≤ maxScrollsPerTick) →
      p.validate = .error (.outOfRange .scrollsPerTick p.scrollsPerTick 0.0 maxScrollsPerTick)) ∧
    (∀ s, ParamSet.ofJsonText s = .ok p ↔ ParamSet.decodeJson s = .ok p ∧ p.validate = .ok ()) ∧
    (∀ s, ParamSet.ofYamlText s = .ok p ↔ ParamSet.decodeYaml s = .ok p ∧ p.validate = .ok ()) ∧
    (∀ (json : StructFormat) s, ParamSet.fromJsonStrWith json s = .ok p ↔
      ParamSet.decodeWith json s = .ok p ∧ p.validate = .ok ()) ∧
    (∀ (yaml : StructFormat) s, ParamSet.fromYamlStrWith yaml s = .ok p ↔
      ParamSet.decodeWith yaml s = .ok p ∧ p.validate = .ok ()) := by
  refine ⟨p.validate_eq_ok_iff, p.validate_eq_nonFinite_iff, ?_, ?_, ?_,
    fun s => p.acceptDecoded_eq_ok_iff _ (ParamSet.decodeJson s),
    fun s => p.acceptDecoded_eq_ok_iff .yaml (ParamSet.decodeYaml s),
    fun json => p.fromStrWith_eq_ok_iff json .json, fun yaml => p.fromStrWith_eq_ok_iff yaml .yaml⟩
  · intro hfin hs
    rw [p.validate_of_finite hfin, if_pos hs]
  · intro hfin hs hc
    have hs' : ¬ p.speedCap < 0.0 := (not_lt_zero_iff (hfin .speedCap)).2 hs
    rw [p.validate_of_finite hfin, if_neg hs', if_pos hc]
  · intro hfin hs hc hr
    have hs' : ¬ p.speedCap < 0.0 := (not_lt_zero_iff (hfin .speedCap)).2 hs
    have hc' : ¬ p.sensitivityCap < 0.0 := (not_lt_zero_iff (hfin .sensitivityCap)).2 hc
    rw [p.validate_of_finite hfin, if_neg hs', if_neg hc', if_neg hr]

/-- A NaN midpoint is reported before a negative speed cap: every field before it is finite. -/
theorem nan_midpoint_outranks_negative_cap :
    (({ ParamSet.default with speedCap := -1.0, midpoint := 0.0 / 0.0 } : ParamSet).get
        .midpoint).isFinite = false ∧
      (∀ m : ParamName, m.index < ParamName.midpoint.index →
        (({ ParamSet.default with speedCap := -1.0, midpoint := 0.0 / 0.0 } : ParamSet).get
          m).isFinite = true) ∧
      ({ ParamSet.default with speedCap := -1.0, midpoint := 0.0 / 0.0 } : ParamSet).validate =
        .error (.nonFinite .midpoint) := by
  have hnan : (({ ParamSet.default with speedCap := -1.0, midpoint := 0.0 / 0.0 } : ParamSet).get
      .midpoint).isFinite = false := by decide
  have hbefore : ∀ m : ParamName, m.index < ParamName.midpoint.index →
      (({ ParamSet.default with speedCap := -1.0, midpoint := 0.0 / 0.0 } : ParamSet).get
        m).isFinite = true := by
    intro m hm
    cases m <;> first | decide | simp [ParamName.index] at hm
  exact ⟨hnan, hbefore,
    ((validation_reports_first_failure _).2.1 .midpoint).2 ⟨hnan, hbefore⟩⟩

end PointerAccel
