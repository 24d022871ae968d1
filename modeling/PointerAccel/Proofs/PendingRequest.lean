import Mathlib
import PointerAccel.Proofs.Reload

/-!
# Pending reload requests

A raised request survives everything but the poll that applies it: no write to the surface
lowers it, a poll that finds it raised is never idle, and a debounced or contended poll leaves
it raised. The applying poll reads the surface as it stands at that poll, and the surface's
strings and mode code are those of the last writes before it.

* `Surface.edit_eq`: what one write does to each part of the surface;
* `Surface.get_parseOnto`: a parse sets each field whose text reads and keeps the rest;
* `Controller.perform_request_iff`, `Controller.request_survives`: the request is lowered
  only by an applied poll, one operation at a time and over a whole sequence;
* `Controller.run_text`, `Controller.run_modeCode`: the last write wins;
* `reload_request_is_never_lost`: the laws together.
-/

namespace PointerAccel

open PointerAccel.Text

/-! ## What a write does -/

namespace Surface.Edit

/-- The text an edit writes to field `n`, if it writes one. -/
def textFor? : Edit → ParamName → Option String
  | .setText m v, n => if m = n then some v else none
  | .setByKey k v, n => if ParamName.ofKey? k = some n then some v else none
  | _, _ => none

/-- The mode code an edit writes, if it writes one. -/
def modeFor? : Edit → Option UInt8
  | .setMode c => some c
  | .setByKey k v => if k = modeKey then readByte (trimSpace v) else none
  | _ => none

/-- Whether an edit raises the reload request. -/
def raises : Edit → Bool
  | .requestReload => true
  | .setByKey k v => k == updateKey && (readByte (trimSpace v)).any (· != 0)
  | _ => false

end Surface.Edit

namespace Surface

theorem ofKey_modeKey : ParamName.ofKey? modeKey = none := by decide

theorem ofKey_updateKey : ParamName.ofKey? updateKey = none := by decide

theorem updateKey_ne_modeKey : updateKey ≠ modeKey := by decide

theorem edit_setByKey_of_field (s : Surface) {k : String} (v : String) {n : ParamName}
    (hk : ParamName.ofKey? k = some n) : s.edit (.setByKey k v) = s.setText n v := by
  unfold edit
  dsimp only
  unfold setByKey
  rw [hk]

theorem edit_setByKey_of_not_field (s : Surface) {k : String} (v : String)
    (hk : ParamName.ofKey? k = none) :
    s.edit (.setByKey k v) =
      if k = modeKey then ((readByte (trimSpace v)).map s.setMode).getD s
      else if k = updateKey then
        ((readByte (trimSpace v)).map fun b => if b = 0 then s else s.requestReload).getD s
      else s := by
  unfold edit
  dsimp only
  unfold setByKey readKeyByte
  rw [hk]
  dsimp only
  by_cases hm : k = modeKey
  · rw [if_pos hm, if_pos hm]
    cases readByte (trimSpace v) <;> rfl
  · rw [if_neg hm, if_neg hm]
    by_cases hu : k = updateKey
    · rw [if_pos hu, if_pos hu]
      cases readByte (trimSpace v) <;> rfl
    · rw [if_neg hu, if_neg hu]

/-- One write, field by field: the texts it writes, the mode code it writes, and the request
raised if it was or if the write raises it. -/
theorem edit_eq (s : Surface) (w : Edit) :
    s.edit w =
      ⟨fun n => (w.textFor? n).getD (s.text n), w.modeFor?.getD s.modeCode,
        s.reloadRequested || w.raises⟩ := by
  obtain ⟨text, code, req⟩ := s
  cases w with
  | setText m v =>
    simp only [edit, setText, Edit.textFor?, Edit.modeFor?, Edit.raises, Option.getD_none,
      Bool.or_false, mk.injEq, and_true]
    funext n
    by_cases h : m = n
    · simp [h]
    · simp [h, Ne.symm h]
  | setByKey k v =>
    cases hk : ParamName.ofKey? k with
    | some m =>
      rw [edit_setByKey_of_field _ v hk]
      have hm : k ≠ modeKey := fun h => by rw [h, ofKey_modeKey] at hk; cases hk
      have hu : (k == updateKey) = false := by
        rw [beq_eq_false_iff_ne]
        intro h
        rw [h, ofKey_updateKey] at hk
        cases hk
      simp only [setText, Edit.textFor?, Edit.modeFor?, Edit.raises, hk, hm, hu, if_false,
        Option.some.injEq, Option.getD_none, Bool.false_and, Bool.or_false, mk.injEq, and_true]
      funext n
      by_cases h : m = n
      · simp [h]
      · simp [h, Ne.symm h]
    | none =>
      rw [edit_setByKey_of_not_field _ v hk]
      simp only [Edit.textFor?, Edit.modeFor?, Edit.raises, hk, reduceCtorEq, if_false,
        Option.getD_none]
      by_cases hm : k = modeKey
      · have hu : (k == updateKey) = false := by
          rw [beq_eq_false_iff_ne, hm]
          exact updateKey_ne_modeKey.symm
        rw [if_pos hm, if_pos hm, hu]
        cases readByte (trimSpace v) <;> simp [setMode]
      · rw [if_neg hm, if_neg hm]
        by_cases hu : k = updateKey
        · rw [if_pos hu, hu, beq_self_eq_true, Bool.true_and]
          cases readByte (trimSpace v) with
          | none => simp
          | some b =>
            by_cases hb0 : b = 0
            · simp [hb0]
            · simp [hb0, requestReload]
        · rw [if_neg hu]
          simp [hu]
  | setMode c => simp [edit, setMode, Edit.textFor?, Edit.modeFor?, Edit.raises]
  | requestReload => simp [edit, requestReload, Edit.textFor?, Edit.modeFor?, Edit.raises]

theorem edit_text (s : Surface) (w : Edit) (n : ParamName) :
    (s.edit w).text n = (w.textFor? n).getD (s.text n) := by
  rw [edit_eq]

theorem edit_modeCode (s : Surface) (w : Edit) :
    (s.edit w).modeCode = w.modeFor?.getD s.modeCode := by
  rw [edit_eq]

theorem edit_reloadRequested (s : Surface) (w : Edit) :
    (s.edit w).reloadRequested = (s.reloadRequested || w.raises) := by
  rw [edit_eq]

/-! ## What an applied reload reads -/

section Reader

variable (s : Surface) (parse : String → Option Float32)

theorem readField_get (acc : ParamSet × List ParamName) (m n : ParamName) :
    (s.readField parse acc m).1.get n =
      if m = n then (parse (s.text n)).getD (acc.1.get n) else acc.1.get n := by
  unfold readField
  by_cases h : m = n
  · subst h
    cases parse (s.text m) <;> simp
  · cases parse (s.text m) <;> simp [h, ParamSet.get_set_of_ne _ _ (Ne.symm h)]

theorem foldl_readField_get (n : ParamName) (l : List ParamName)
    (acc : ParamSet × List ParamName) :
    (l.foldl (s.readField parse) acc).1.get n =
      if n ∈ l then (parse (s.text n)).getD (acc.1.get n) else acc.1.get n := by
  induction l generalizing acc with
  | nil => simp
  | cons m l ih =>
    rw [List.foldl_cons, ih, readField_get]
    by_cases hm : m = n <;> by_cases hl : n ∈ l <;> cases parse (s.text n) <;>
      simp [hm, hl, Ne.symm]

theorem foldl_readField_rejected (l : List ParamName) (acc : ParamSet × List ParamName) :
    (l.foldl (s.readField parse) acc).2 =
      acc.2 ++ l.filter fun n => (parse (s.text n)).isNone := by
  induction l generalizing acc with
  | nil => simp
  | cons m l ih =>
    rw [List.foldl_cons, ih, List.filter_cons]
    unfold readField
    cases parse (s.text m) <;> simp

theorem get_parseOnto (base : ParamSet) (n : ParamName) :
    (s.parseOnto parse base).1.get n = (parse (s.text n)).getD (base.get n) := by
  have hn : n ∈ ParamName.all := by cases n <;> decide
  rw [parseOnto, ParamSet.get_with_mode, foldl_readField_get, if_pos hn]

theorem mode_parseOnto (base : ParamSet) :
    (s.parseOnto parse base).1.mode = AccelMode.ofCode s.modeCode := rfl

theorem rejected_parseOnto (base : ParamSet) :
    (s.parseOnto parse base).2 = ParamName.all.filter fun n => (parse (s.text n)).isNone := by
  rw [parseOnto, foldl_readField_rejected, List.nil_append]

end Reader

end Surface

/-! ## What a poll does to the request -/

theorem pollReload_idle_iff (held : Bool) (s : Surface) (st : ReloadState) (now : UInt64)
    (live : ParamSet) :
    (pollReload held s st now live).outcome = .idle ↔ s.reloadRequested = false := by
  rcases pollReload_cases held s st now live with
    ⟨hr, hp⟩ | ⟨hr, -, hp⟩ | ⟨hr, -, -, hp⟩ | ⟨hr, -, -, hp⟩ <;> simp [hp, hr]

theorem pollReload_surface (held : Bool) (s : Surface) (st : ReloadState) (now : UInt64)
    (live : ParamSet) :
    (pollReload held s st now live).surface =
      { s with reloadRequested :=
          s.reloadRequested && (pollReload held s st now live).outcome != .applied } := by
  obtain ⟨text, code, req⟩ := s
  rcases pollReload_cases held ⟨text, code, req⟩ st now live with
    ⟨hr, hp⟩ | ⟨hr, -, hp⟩ | ⟨hr, -, -, hp⟩ | ⟨hr, -, -, hp⟩ <;> rw [hp] <;> simp_all

namespace ControllerOp

/-- The text an operation writes to field `n`; a poll writes none. -/
def textFor? : ControllerOp → ParamName → Option String
  | .edit w, n => w.textFor? n
  | .poll _ _, _ => none

/-- The mode code an operation writes; a poll writes none. -/
def modeFor? : ControllerOp → Option UInt8
  | .edit w => w.modeFor?
  | .poll _ _ => none

end ControllerOp

namespace Controller

variable (c : Controller)

theorem perform_text (op : ControllerOp) (n : ParamName) :
    (c.perform op).2.surface.text n = (op.textFor? n).getD (c.surface.text n) := by
  cases op with
  | edit w => exact Surface.edit_text c.surface w n
  | poll now held => rw [perform_poll_surface, pollReload_surface]; rfl

theorem perform_modeCode (op : ControllerOp) :
    (c.perform op).2.surface.modeCode = op.modeFor?.getD c.surface.modeCode := by
  cases op with
  | edit w => exact Surface.edit_modeCode c.surface w
  | poll now held => rw [perform_poll_surface, pollReload_surface]; rfl

theorem run_last_write {α : Type} (f : Controller → α) (g : ControllerOp → Option α)
    (hstep : ∀ c op, f (c.perform op).2 = (g op).getD (f c)) (ops : List ControllerOp) :
    f (c.run ops) = ((ops.filterMap g).getLast?).getD (f c) := by
  induction ops generalizing c with
  | nil => rfl
  | cons op ops ih =>
    rw [run_cons, ih, hstep]
    cases hg : g op with
    | none => rw [List.filterMap_cons_none hg, Option.getD_none]
    | some v => simp only [List.filterMap_cons_some hg, List.getLast?_cons, Option.getD_some]

theorem run_text (ops : List ControllerOp) (n : ParamName) :
    (c.run ops).surface.text n =
      ((ops.filterMap (·.textFor? n)).getLast?).getD (c.surface.text n) :=
  run_last_write c (fun c => c.surface.text n) (·.textFor? n) (fun c op => perform_text c op n) ops

theorem run_modeCode (ops : List ControllerOp) :
    (c.run ops).surface.modeCode =
      ((ops.filterMap ControllerOp.modeFor?).getLast?).getD c.surface.modeCode :=
  run_last_write c (fun c => c.surface.modeCode) ControllerOp.modeFor? perform_modeCode ops

/-- With the request raised, an operation leaves it raised exactly when it is not an applied
poll. -/
theorem perform_request_iff (op : ControllerOp) (h : c.surface.reloadRequested = true) :
    (c.perform op).2.surface.reloadRequested = true ↔ (c.perform op).1 ≠ some .applied := by
  cases op with
  | edit w =>
    rw [perform_edit_surface, Surface.edit_reloadRequested, h, Bool.true_or]
    exact iff_of_true rfl (by simp [perform])
  | poll now held =>
    rw [perform_poll_surface, pollReload_surface, perform_poll_outcome, h]
    simp

theorem mem_polls_cons {op : ControllerOp} {ops : List ControllerOp} {p : Poll}
    (hp : p ∈ (c.perform op).2.polls ops) : p ∈ c.polls (op :: ops) := by
  cases op with
  | edit w => rwa [polls_cons_edit]
  | poll now held =>
    rw [polls_cons_poll]
    exact List.mem_cons_of_mem _ hp

/-- A raised request is still raised after any sequence of operations none of whose polls
applies. -/
theorem request_survives (ops : List ControllerOp) (h : c.surface.reloadRequested = true)
    (hna : ∀ p ∈ c.polls ops, p.step.outcome ≠ .applied) :
    (c.run ops).surface.reloadRequested = true := by
  induction ops generalizing c with
  | nil => exact h
  | cons op ops ih =>
    have hop : (c.perform op).1 ≠ some .applied := by
      cases op with
      | edit w => simp [perform]
      | poll now held =>
        have hfirst := hna ⟨c, now, held⟩ (by rw [polls_cons_poll]; exact List.mem_cons_self)
        rw [Poll.step_mk] at hfirst
        rw [perform_poll_outcome]
        exact fun happ => hfirst (Option.some.inj happ)
    rw [run_cons]
    exact ih _ ((perform_request_iff c op h).mpr hop) fun p hp => hna p (mem_polls_cons c hp)

theorem applied_reads_surface (now : UInt64) (held : Bool)
    (h : (c.perform (.poll now held)).1 = some .applied) :
    (∀ n, (c.perform (.poll now held)).2.live.get n =
      (readParamFloat (c.surface.text n)).getD (c.live.get n)) ∧
    (c.perform (.poll now held)).2.live.mode = AccelMode.ofCode c.surface.modeCode ∧
    (c.perform (.poll now held)).2.state.rejected =
      ParamName.all.filter fun n => (readParamFloat (c.surface.text n)).isNone := by
  have happ : (pollReload held c.surface c.state now c.live).outcome = .applied := by
    rw [perform_poll_outcome] at h
    exact Option.some.inj h
  obtain ⟨-, -, -, -, hst, hlive⟩ := pollReload_of_applied happ
  have hl : (c.perform (.poll now held)).2.live = (c.surface.parseOnto readParamFloat c.live).1 := by
    rw [perform_poll_live, hlive]
  have hrej : (c.perform (.poll now held)).2.state.rejected =
      (c.surface.parseOnto readParamFloat c.live).2 := by
    rw [perform_poll_state, hst]
  rw [hl, hrej]
  exact ⟨Surface.get_parseOnto c.surface readParamFloat c.live,
    Surface.mode_parseOnto c.surface readParamFloat c.live,
    Surface.rejected_parseOnto c.surface readParamFloat c.live⟩

end Controller

/-- A reload request is never lost. It is raised by a request or by a non-zero byte written
to the update key, and no write lowers it. A poll that finds it raised is never idle, and
leaves it raised unless it applies, so it survives any sequence whose polls do not apply. The
applying poll reads the surface as it stands then, and the surface's texts and mode code are
those of the last writes before it. -/
theorem reload_request_is_never_lost :
    (∀ s : Surface, (s.edit .requestReload).reloadRequested = true) ∧
    (∀ (s : Surface) (v : String) (b : UInt8), readByte (trimSpace v) = some b → b ≠ 0 →
      (s.edit (.setByKey updateKey v)).reloadRequested = true) ∧
    (∀ (s : Surface) (w : Surface.Edit), s.reloadRequested = true →
      (s.edit w).reloadRequested = true) ∧
    (∀ (held : Bool) (s : Surface) (st : ReloadState) (now : UInt64) (live : ParamSet),
      (pollReload held s st now live).outcome = .idle ↔ s.reloadRequested = false) ∧
    (∀ (c : Controller) (op : ControllerOp), c.surface.reloadRequested = true →
      ((c.perform op).2.surface.reloadRequested = true ↔ (c.perform op).1 ≠ some .applied)) ∧
    (∀ (c : Controller) (ops : List ControllerOp), c.surface.reloadRequested = true →
      (∀ p ∈ c.polls ops, p.step.outcome ≠ .applied) →
        (c.run ops).surface.reloadRequested = true) ∧
    (∀ (c : Controller) (now : UInt64) (held : Bool),
      (c.perform (.poll now held)).1 = some .applied →
        (∀ n, (c.perform (.poll now held)).2.live.get n =
          (readParamFloat (c.surface.text n)).getD (c.live.get n)) ∧
        (c.perform (.poll now held)).2.live.mode = AccelMode.ofCode c.surface.modeCode ∧
        (c.perform (.poll now held)).2.state.rejected =
          ParamName.all.filter fun n => (readParamFloat (c.surface.text n)).isNone) ∧
    (∀ (c : Controller) (ops : List ControllerOp) (n : ParamName),
      (c.run ops).surface.text n =
          ((ops.filterMap (·.textFor? n)).getLast?).getD (c.surface.text n) ∧
        (c.run ops).surface.modeCode =
          ((ops.filterMap ControllerOp.modeFor?).getLast?).getD c.surface.modeCode) := by
  refine ⟨?_, ?_, ?_, pollReload_idle_iff, Controller.perform_request_iff,
    Controller.request_survives, Controller.applied_reads_surface,
    fun c ops n => ⟨c.run_text ops n, c.run_modeCode ops⟩⟩
  · intro s
    rw [Surface.edit_reloadRequested, Surface.Edit.raises, Bool.or_true]
  · intro s v b hb hb0
    rw [Surface.edit_reloadRequested]
    simp [Surface.Edit.raises, hb, hb0]
  · intro s w h
    rw [Surface.edit_reloadRequested, h, Bool.true_or]

/-- A request raised before a contended poll and a debounced one is still raised after
both, and the write made between them stays on the surface. -/
theorem contended_request_survives :
    let c : Controller := ⟨Surface.new.requestReload, ⟨5, []⟩, ParamSet.default⟩
    let ops : List ControllerOp := [.poll 7 true, .edit (.setText .offset "0.5"), .poll 3 false]
    (∀ p ∈ c.polls ops, p.step.outcome ≠ .applied) ∧
      (c.run ops).surface.reloadRequested = true := by
  intro c ops
  have hna : ∀ p ∈ c.polls ops, p.step.outcome ≠ .applied := by decide
  exact ⟨hna, reload_request_is_never_lost.2.2.2.2.2.1 c ops rfl hna⟩

end PointerAccel
