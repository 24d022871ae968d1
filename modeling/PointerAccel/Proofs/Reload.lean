import Mathlib
import PointerAccel.Proofs.Run

/-!
# Debounced reloads

A reload controller applies a pending request at most once per window: an applied poll at
`t` opens the window that ends at `min (t + 1 s) u64::MAX`, and nothing but an applied poll
moves the window or the live set. Timestamps may run backwards or stand still; the window is
what carries the spacing. The engine polls its controller once per cycle that passes the
exactness check, at the clock reading, so its parameters change at the same spacing.

* `pollReloadWith_cases`: everything one poll can do, one disjunct per outcome, whatever the
  float reader;
* `satAdd_interval_toNat`: the window's end, `min (t + 10^9) (2^64 - 1)`;
* `nextAllowed_le_applied`, `applied_polls_spaced`: over any sequence of edits and polls,
  two applied polls are a window apart;
* `run_controller`, `polls_reloadOps`: an engine run is its controller's run, fed with the
  surface edits and one uncontended poll per passing cycle;
* `reloads_are_debounced`: the laws together, for the controller and through the engine.
-/

namespace PointerAccel

/-! ## One poll -/

theorem satAdd_toNat (a b : UInt64) :
    (satAdd a b).toNat = min (a.toNat + b.toNat) (2 ^ 64 - 1) := by
  have ha := a.toNat_lt
  have hb := b.toNat_lt
  unfold satAdd
  split
  · rename_i h
    rw [UInt64.toNat_add]
    have h' : a.toNat + b.toNat < 2 ^ 64 := by simpa [Nat.pow_eq] using h
    rw [Nat.mod_eq_of_lt h']
    omega
  · rename_i h
    have h' : ¬ a.toNat + b.toNat < 2 ^ 64 := by simpa [Nat.pow_eq] using h
    rw [UInt64.toNat_ofNat', Nat.pow_eq]
    norm_num
    omega

theorem satAdd_interval_toNat (t : UInt64) :
    (satAdd t reloadIntervalNs).toNat = min (t.toNat + 1000000000) (2 ^ 64 - 1) :=
  satAdd_toNat t reloadIntervalNs

theorem le_satAdd_interval (t : UInt64) : t.toNat ≤ (satAdd t reloadIntervalNs).toNat := by
  rw [satAdd_interval_toNat]
  have := t.toNat_lt
  omega

theorem Surface.take_requestReload {s : Surface} (h : s.reloadRequested = true) :
    s.takeReloadRequest.2.requestReload = s := by
  cases s
  simp_all [Surface.takeReloadRequest, Surface.requestReload]

theorem Surface.parseOnto_congr {s s' : Surface} (parse : String → Option Float32)
    (live : ParamSet) (ht : s.text = s'.text) (hm : s.modeCode = s'.modeCode) :
    s.parseOnto parse live = s'.parseOnto parse live := by
  unfold Surface.parseOnto Surface.readField
  rw [ht, hm]

section Reader

variable (parse : String → Option Float32)

theorem pollReloadWith_idle (held : Bool) {s : Surface} (st : ReloadState) (now : UInt64)
    (live : ParamSet) (hr : s.reloadRequested = false) :
    pollReloadWith parse held s st now live = ⟨.idle, s, st, live⟩ := by
  unfold pollReloadWith
  rw [hr]
  rfl

theorem pollReloadWith_debounced (held : Bool) {s : Surface} {st : ReloadState} {now : UInt64}
    (live : ParamSet) (hr : s.reloadRequested = true) (hn : now < st.nextAllowedNs) :
    pollReloadWith parse held s st now live = ⟨.debounced, s, st, live⟩ := by
  unfold pollReloadWith
  rw [hr, if_neg (by decide), if_pos hn]

theorem pollReloadWith_contended {s : Surface} {st : ReloadState} {now : UInt64}
    (live : ParamSet) (hr : s.reloadRequested = true) (hn : ¬ now < st.nextAllowedNs) :
    pollReloadWith parse true s st now live = ⟨.contended, s, st, live⟩ := by
  have hs := Surface.take_requestReload hr
  simp only [Surface.takeReloadRequest] at hs
  unfold pollReloadWith
  simp only [Surface.takeReloadRequest, hr, Bool.not_true, Bool.false_eq_true, if_false,
    if_neg hn, if_true, hs]

theorem pollReloadWith_applied {s : Surface} {st : ReloadState} {now : UInt64} (live : ParamSet)
    (hr : s.reloadRequested = true) (hn : ¬ now < st.nextAllowedNs) :
    pollReloadWith parse false s st now live =
      ⟨.applied, { s with reloadRequested := false },
        ⟨satAdd now reloadIntervalNs, (s.parseOnto parse live).2⟩, (s.parseOnto parse live).1⟩ := by
  unfold pollReloadWith
  simp only [hr, Bool.not_true, Bool.false_eq_true, if_false, if_neg hn,
    Surface.takeReloadRequest]
  rw [@Surface.parseOnto_congr { s with reloadRequested := false } s parse live rfl rfl]

/-- Everything one poll can do, whatever the float reader. Without a request it is idle; inside
the window it is debounced; with the strings held it is contended; otherwise it clears the
request, reads the surface onto the live set and opens a new window. Only the applied poll
changes anything. -/
theorem pollReloadWith_cases (held : Bool) (s : Surface) (st : ReloadState) (now : UInt64)
    (live : ParamSet) :
    (s.reloadRequested = false ∧ pollReloadWith parse held s st now live = ⟨.idle, s, st, live⟩) ∨
    (s.reloadRequested = true ∧ now < st.nextAllowedNs ∧
      pollReloadWith parse held s st now live = ⟨.debounced, s, st, live⟩) ∨
    (s.reloadRequested = true ∧ st.nextAllowedNs ≤ now ∧ held = true ∧
      pollReloadWith parse held s st now live = ⟨.contended, s, st, live⟩) ∨
    (s.reloadRequested = true ∧ st.nextAllowedNs ≤ now ∧ held = false ∧
      pollReloadWith parse held s st now live =
        ⟨.applied, { s with reloadRequested := false },
          ⟨satAdd now reloadIntervalNs, (s.parseOnto parse live).2⟩,
          (s.parseOnto parse live).1⟩) := by
  cases hr : s.reloadRequested
  · exact .inl ⟨rfl, pollReloadWith_idle parse held st now live hr⟩
  by_cases hn : now < st.nextAllowedNs
  · exact .inr (.inl ⟨rfl, hn, pollReloadWith_debounced parse held live hr hn⟩)
  have hle : st.nextAllowedNs ≤ now := UInt64.not_lt.mp hn
  cases held
  · exact .inr (.inr (.inr ⟨rfl, hle, rfl, pollReloadWith_applied parse live hr hn⟩))
  · exact .inr (.inr (.inl ⟨rfl, hle, rfl, pollReloadWith_contended parse live hr hn⟩))

variable {parse}

theorem pollReloadWith_of_ne_applied {held : Bool} {s : Surface} {st : ReloadState}
    {now : UInt64} {live : ParamSet} (h : (pollReloadWith parse held s st now live).outcome ≠ .applied) :
    (pollReloadWith parse held s st now live).surface = s ∧
      (pollReloadWith parse held s st now live).state = st ∧
      (pollReloadWith parse held s st now live).live = live := by
  rcases pollReloadWith_cases parse held s st now live with
    ⟨-, hp⟩ | ⟨-, -, hp⟩ | ⟨-, -, -, hp⟩ | ⟨-, -, -, hp⟩
  · rw [hp]
    exact ⟨rfl, rfl, rfl⟩
  · rw [hp]
    exact ⟨rfl, rfl, rfl⟩
  · rw [hp]
    exact ⟨rfl, rfl, rfl⟩
  · rw [hp] at h
    exact absurd rfl h

theorem pollReloadWith_of_applied {held : Bool} {s : Surface} {st : ReloadState} {now : UInt64}
    {live : ParamSet} (h : (pollReloadWith parse held s st now live).outcome = .applied) :
    s.reloadRequested = true ∧ st.nextAllowedNs ≤ now ∧ held = false ∧
      (pollReloadWith parse held s st now live).surface = { s with reloadRequested := false } ∧
      (pollReloadWith parse held s st now live).state =
        ⟨satAdd now reloadIntervalNs, (s.parseOnto parse live).2⟩ ∧
      (pollReloadWith parse held s st now live).live = (s.parseOnto parse live).1 := by
  rcases pollReloadWith_cases parse held s st now live with
    ⟨-, hp⟩ | ⟨-, -, hp⟩ | ⟨-, -, -, hp⟩ | ⟨hr, hle, hh, hp⟩
  · rw [hp] at h; cases h
  · rw [hp] at h; cases h
  · rw [hp] at h; cases h
  · rw [hp]
    exact ⟨hr, hle, hh, rfl, rfl, rfl⟩

end Reader

/-! The same laws for a controller with the standard float reader. -/

theorem pollReload_applied {s : Surface} {st : ReloadState} {now : UInt64} (live : ParamSet)
    (hr : s.reloadRequested = true) (hn : ¬ now < st.nextAllowedNs) :
    pollReload false s st now live =
      ⟨.applied, { s with reloadRequested := false },
        ⟨satAdd now reloadIntervalNs, (s.parseOnto readParamFloat live).2⟩,
        (s.parseOnto readParamFloat live).1⟩ :=
  pollReloadWith_applied readParamFloat live hr hn

theorem pollReload_cases (held : Bool) (s : Surface) (st : ReloadState) (now : UInt64)
    (live : ParamSet) :
    (s.reloadRequested = false ∧ pollReload held s st now live = ⟨.idle, s, st, live⟩) ∨
    (s.reloadRequested = true ∧ now < st.nextAllowedNs ∧
      pollReload held s st now live = ⟨.debounced, s, st, live⟩) ∨
    (s.reloadRequested = true ∧ st.nextAllowedNs ≤ now ∧ held = true ∧
      pollReload held s st now live = ⟨.contended, s, st, live⟩) ∨
    (s.reloadRequested = true ∧ st.nextAllowedNs ≤ now ∧ held = false ∧
      pollReload held s st now live =
        ⟨.applied, { s with reloadRequested := false },
          ⟨satAdd now reloadIntervalNs, (s.parseOnto readParamFloat live).2⟩,
          (s.parseOnto readParamFloat live).1⟩) :=
  pollReloadWith_cases readParamFloat held s st now live

theorem pollReload_of_ne_applied {held : Bool} {s : Surface} {st : ReloadState} {now : UInt64}
    {live : ParamSet} (h : (pollReload held s st now live).outcome ≠ .applied) :
    (pollReload held s st now live).surface = s ∧ (pollReload held s st now live).state = st ∧
      (pollReload held s st now live).live = live :=
  pollReloadWith_of_ne_applied h

theorem pollReload_of_applied {held : Bool} {s : Surface} {st : ReloadState} {now : UInt64}
    {live : ParamSet} (h : (pollReload held s st now live).outcome = .applied) :
    s.reloadRequested = true ∧ st.nextAllowedNs ≤ now ∧ held = false ∧
      (pollReload held s st now live).surface = { s with reloadRequested := false } ∧
      (pollReload held s st now live).state =
        ⟨satAdd now reloadIntervalNs, (s.parseOnto readParamFloat live).2⟩ ∧
      (pollReload held s st now live).live = (s.parseOnto readParamFloat live).1 :=
  pollReloadWith_of_applied h

theorem pollReload_window {held : Bool} {s : Surface} {st : ReloadState} {now : UInt64}
    {live : ParamSet} (h : (pollReload held s st now live).outcome = .applied) :
    (pollReload held s st now live).state.nextAllowedNs = satAdd now reloadIntervalNs := by
  rw [(pollReload_of_applied h).2.2.2.2.1]

theorem nextAllowed_le_pollReload (held : Bool) (s : Surface) (st : ReloadState) (now : UInt64)
    (live : ParamSet) :
    st.nextAllowedNs.toNat ≤ (pollReload held s st now live).state.nextAllowedNs.toNat := by
  by_cases h : (pollReload held s st now live).outcome = .applied
  · have hnow := UInt64.le_iff_toNat_le.mp (pollReload_of_applied h).2.1
    have hwin := le_satAdd_interval now
    rw [pollReload_window h]
    omega
  · rw [(pollReload_of_ne_applied h).2.1]

/-! ## Sequences of edits and polls -/

/-- One poll of a sequence: the controller it found, its time and whether a writer held the
strings. -/
structure Poll where
  controller : Controller
  now : UInt64
  held : Bool

/-- What the poll did. -/
def Poll.step (p : Poll) : ReloadStep :=
  pollReload p.held p.controller.surface p.controller.state p.now p.controller.live

theorem Poll.step_mk (c : Controller) (now : UInt64) (held : Bool) :
    Poll.step ⟨c, now, held⟩ = pollReload held c.surface c.state now c.live := rfl

namespace Controller

/-- The polls of a sequence of operations, in order. -/
def polls : Controller → List ControllerOp → List Poll
  | _, [] => []
  | c, op :: ops =>
    match op with
    | .poll now held => ⟨c, now, held⟩ :: polls (c.perform op).2 ops
    | .edit _ => polls (c.perform op).2 ops

@[simp] theorem run_nil (c : Controller) : c.run [] = c := rfl

@[simp] theorem run_cons (c : Controller) (op : ControllerOp) (ops : List ControllerOp) :
    c.run (op :: ops) = (c.perform op).2.run ops := rfl

@[simp] theorem polls_nil (c : Controller) : c.polls [] = [] := rfl

theorem polls_cons_poll (c : Controller) (now : UInt64) (held : Bool) (ops : List ControllerOp) :
    c.polls (.poll now held :: ops) = ⟨c, now, held⟩ :: (c.perform (.poll now held)).2.polls ops :=
  rfl

theorem polls_cons_edit (c : Controller) (w : Surface.Edit) (ops : List ControllerOp) :
    c.polls (.edit w :: ops) = (c.perform (.edit w)).2.polls ops := rfl

theorem run_append (c : Controller) (ops ops' : List ControllerOp) :
    c.run (ops ++ ops') = (c.run ops).run ops' := by
  simp [run, List.foldl_append]

section Poll

variable (c : Controller) (now : UInt64) (held : Bool)

@[simp] theorem perform_poll_outcome :
    (c.perform (.poll now held)).1 = some (pollReload held c.surface c.state now c.live).outcome :=
  rfl

@[simp] theorem perform_poll_surface :
    (c.perform (.poll now held)).2.surface = (pollReload held c.surface c.state now c.live).surface :=
  rfl

@[simp] theorem perform_poll_state :
    (c.perform (.poll now held)).2.state = (pollReload held c.surface c.state now c.live).state :=
  rfl

@[simp] theorem perform_poll_live :
    (c.perform (.poll now held)).2.live = (pollReload held c.surface c.state now c.live).live :=
  rfl

end Poll

@[simp] theorem perform_edit_surface (c : Controller) (w : Surface.Edit) :
    (c.perform (.edit w)).2.surface = c.surface.edit w := rfl

@[simp] theorem perform_edit_state (c : Controller) (w : Surface.Edit) :
    (c.perform (.edit w)).2.state = c.state := rfl

@[simp] theorem perform_edit_live (c : Controller) (w : Surface.Edit) :
    (c.perform (.edit w)).2.live = c.live := rfl

theorem perform_keeps_live (c : Controller) (op : ControllerOp)
    (h : (c.perform op).1 ≠ some .applied) :
    (c.perform op).2.live = c.live ∧ (c.perform op).2.state = c.state := by
  cases op with
  | edit w => exact ⟨rfl, rfl⟩
  | poll now held =>
    have hne : (pollReload held c.surface c.state now c.live).outcome ≠ .applied :=
      fun ha => h (by rw [perform_poll_outcome, ha])
    obtain ⟨-, hst, hlive⟩ := pollReload_of_ne_applied hne
    exact ⟨by rw [perform_poll_live, hlive], by rw [perform_poll_state, hst]⟩

/-- Every applied poll of a sequence comes at or after the end of the window the sequence
started in. -/
theorem nextAllowed_le_applied (c : Controller) (ops : List ControllerOp) :
    ∀ p ∈ c.polls ops, p.step.outcome = .applied →
      c.state.nextAllowedNs.toNat ≤ p.now.toNat := by
  induction ops generalizing c with
  | nil => simp
  | cons op ops ih =>
    cases op with
    | edit w =>
      rw [polls_cons_edit]
      simpa using ih (c.perform (.edit w)).2
    | poll now held =>
      intro p hp happ
      rw [polls_cons_poll, List.mem_cons] at hp
      rcases hp with rfl | hp
      · exact UInt64.le_iff_toNat_le.mp (pollReload_of_applied happ).2.1
      · have hlater := ih _ p hp happ
        rw [perform_poll_state] at hlater
        exact le_trans (nextAllowed_le_pollReload held c.surface c.state now c.live) hlater

/-- Whatever the timestamps, two applied polls of a sequence are a window apart: the later
one is at least one interval after the earlier, saturating at `u64::MAX`. -/
theorem applied_polls_spaced (c : Controller) (ops : List ControllerOp) :
    (c.polls ops).Pairwise fun p q => p.step.outcome = .applied → q.step.outcome = .applied →
      min (p.now.toNat + 1000000000) (2 ^ 64 - 1) ≤ q.now.toNat := by
  induction ops generalizing c with
  | nil => exact .nil
  | cons op ops ih =>
    cases op with
    | edit w =>
      rw [polls_cons_edit]
      exact ih _
    | poll now held =>
      rw [polls_cons_poll]
      refine .cons ?_ (ih _)
      intro q hq happ hq_app
      -- the applied poll opened the window that every later applied poll waits out
      have hwin := nextAllowed_le_applied _ ops q hq hq_app
      rw [perform_poll_state, pollReload_window happ, satAdd_interval_toNat] at hwin
      exact hwin

end Controller

/-! ## The engine's controller -/

namespace Engine

/-- The engine's reload controller: its surface, reload state and live set. -/
def controller (e : Engine) : Controller := ⟨e.surface, e.reload, e.params⟩

/-- The controller operations of an engine run: each surface edit, and an uncontended poll at
the clock reading for each call that gets past the exactness check. -/
def reloadOps : Engine → List HostOp → List ControllerOp
  | _, [] => []
  | e, op :: ops =>
    match op with
    | .edit w => .edit w :: reloadOps (e.perform op).2 ops
    | .process s =>
      if e.usable && s.isFloatExact then .poll e.clockNs e.held :: reloadOps (e.perform op).2 ops
      else reloadOps (e.perform op).2 ops
    | _ => reloadOps (e.perform op).2 ops

@[simp] theorem drain_surface (e : Engine) : e.drain.surface = e.poll.surface := rfl

theorem process_controller (e : Engine) (s : RawSample) :
    (e.process s).2.controller =
      if e.usable && s.isFloatExact then ⟨e.poll.surface, e.poll.state, e.poll.live⟩
      else e.controller := by
  cases hu : e.usable
  · rw [process_unusable e s hu]
    rfl
  · cases hx : s.isFloatExact
    · rw [process_inexact e s hu hx]
      rfl
    · rw [process_exact e s hu hx]
      split <;> rfl

theorem perform_controller (e : Engine) (op : HostOp) :
    (e.perform op).2.controller = e.controller.run (e.reloadOps [op]) := by
  cases op with
  | setClock ns => rfl
  | setUsable b => rfl
  | setHeld b => rfl
  | edit w => rfl
  | process s =>
    rw [perform_process, process_controller]
    by_cases hp : e.usable && s.isFloatExact
    · simp only [hp, if_true, reloadOps, Controller.run_cons, Controller.run_nil]
      rfl
    · simp only [hp, Bool.false_eq_true, if_false, reloadOps, Controller.run_nil]

theorem reloadOps_cons (e : Engine) (op : HostOp) (ops : List HostOp) :
    e.reloadOps (op :: ops) = e.reloadOps [op] ++ (e.perform op).2.reloadOps ops := by
  cases op with
  | process s =>
    simp only [reloadOps]
    split <;> rfl
  | _ => rfl

theorem run_controller (e : Engine) (ops : List HostOp) :
    (e.run ops).controller = e.controller.run (e.reloadOps ops) := by
  induction ops generalizing e with
  | nil => rfl
  | cons op ops ih =>
    rw [run_cons, ih, reloadOps_cons, Controller.run_append, ← perform_controller]

/-- The poll a call past the exactness check makes. -/
def Call.poll (c : Call) : Poll := ⟨c.engine.controller, c.engine.clockNs, c.engine.held⟩

theorem Call.poll_step (c : Call) : c.poll.step = c.engine.poll := rfl

theorem polls_reloadOps (e : Engine) (ops : List HostOp) :
    e.controller.polls (e.reloadOps ops) = ((e.calls ops).filter Call.passes).map Call.poll := by
  induction ops generalizing e with
  | nil => rfl
  | cons op ops ih =>
    cases op with
    | setClock ns => exact ih (e.perform (.setClock ns)).2
    | setUsable b => exact ih (e.perform (.setUsable b)).2
    | setHeld b => exact ih (e.perform (.setHeld b)).2
    | edit w => exact ih (e.perform (.edit w)).2
    | process s =>
      rw [calls_cons_process]
      by_cases hp : e.usable && s.isFloatExact
      · have hcp : Call.passes ⟨e, s⟩ = true := hp
        simp only [reloadOps, hp, if_true, Controller.polls_cons_poll, List.filter_cons, hcp,
          List.map_cons]
        have hc : (e.controller.perform (.poll e.clockNs e.held)).2 = (e.process s).2.controller := by
          rw [← perform_process, perform_controller]
          simp only [reloadOps, hp, if_true, Controller.run_cons, Controller.run_nil]
        rw [hc, ← perform_process, ih]
        rfl
      · have hcp : Call.passes ⟨e, s⟩ = false := Bool.eq_false_iff.mpr hp
        simp only [reloadOps, hp, Bool.false_eq_true, if_false, List.filter_cons, hcp]
        have hc : e.controller = (e.perform (.process s)).2.controller := by
          rw [perform_controller]
          simp only [reloadOps, hp, Bool.false_eq_true, if_false, Controller.run_nil]
        rw [hc, ih]
        rfl

theorem perform_params (e : Engine) (op : HostOp) (h : (e.perform op).2.params ≠ e.params) :
    ∃ s, op = .process s ∧ Call.passes ⟨e, s⟩ = true ∧ e.poll.outcome = .applied := by
  cases op with
  | process s =>
    refine ⟨s, rfl, ?_⟩
    have hc := congrArg Controller.live (process_controller e s)
    rw [perform_process] at h
    by_cases hp : e.usable && s.isFloatExact
    · refine ⟨hp, ?_⟩
      by_contra hne
      rw [if_pos hp] at hc
      have hkeep := pollReload_of_ne_applied hne
      exact h (by
        change (e.process s).2.controller.live = e.params
        rw [hc]
        change (pollReload e.held e.surface e.reload e.clockNs e.params).live = e.params
        exact hkeep.2.2)
    · rw [if_neg hp] at hc
      exact absurd hc h
  | _ => exact absurd rfl h

theorem Call.applied_of_params_ne (c : Call) (h : c.after.params ≠ c.engine.params) :
    c.passes = true ∧ c.engine.poll.outcome = .applied := by
  obtain ⟨s, hs, hp, happ⟩ := perform_params c.engine (.process c.sample) h
  cases hs
  exact ⟨hp, happ⟩

theorem param_changes_spaced (e : Engine) (ops : List HostOp) :
    (e.calls ops).Pairwise fun c d => c.after.params ≠ c.engine.params →
      d.after.params ≠ d.engine.params →
        min (c.engine.clockNs.toNat + 1000000000) (2 ^ 64 - 1) ≤ d.engine.clockNs.toNat := by
  have h := Controller.applied_polls_spaced e.controller (e.reloadOps ops)
  rw [polls_reloadOps, List.pairwise_map, List.pairwise_filter] at h
  refine h.imp ?_
  intro c d hcd hc hd
  obtain ⟨hpc, happc⟩ := c.applied_of_params_ne hc
  obtain ⟨hpd, happd⟩ := d.applied_of_params_ne hd
  exact hcd hpc hpd happc happd

end Engine

/-- Reloads are debounced, under any interleaving of surface edits and polls at any
timestamps: only an applied poll moves the live set or the window; an applied poll at `t`
ends the window at `min (t + 1 s) u64::MAX`; any two applied polls are that far apart; a
pending request polled exactly at the window's end with the strings free is applied. Through
the engine, the parameters change only in a call past the exactness check whose poll applied,
and two such calls read clocks a window apart. -/
theorem reloads_are_debounced :
    (∀ (c : Controller) (op : ControllerOp), (c.perform op).1 ≠ some .applied →
      (c.perform op).2.live = c.live ∧ (c.perform op).2.state = c.state) ∧
    (∀ (c : Controller) (now : UInt64) (held : Bool),
      (c.perform (.poll now held)).1 = some .applied →
        (c.perform (.poll now held)).2.state.nextAllowedNs.toNat =
          min (now.toNat + 1000000000) (2 ^ 64 - 1)) ∧
    (∀ (c : Controller) (ops : List ControllerOp),
      (c.polls ops).Pairwise fun p q => p.step.outcome = .applied →
        q.step.outcome = .applied → min (p.now.toNat + 1000000000) (2 ^ 64 - 1) ≤ q.now.toNat) ∧
    (∀ c : Controller, c.surface.reloadRequested = true →
      (c.perform (.poll c.state.nextAllowedNs false)).1 = some .applied) ∧
    (∀ (e : Engine) (op : Engine.HostOp), (e.perform op).2.params ≠ e.params →
      ∃ s, op = .process s ∧ Engine.Call.passes ⟨e, s⟩ = true ∧ e.poll.outcome = .applied) ∧
    (∀ (e : Engine) (ops : List Engine.HostOp),
      (e.calls ops).Pairwise fun c d => c.after.params ≠ c.engine.params →
        d.after.params ≠ d.engine.params →
          min (c.engine.clockNs.toNat + 1000000000) (2 ^ 64 - 1) ≤ d.engine.clockNs.toNat) := by
  refine ⟨Controller.perform_keeps_live, ?_, Controller.applied_polls_spaced, ?_,
    Engine.perform_params, Engine.param_changes_spaced⟩
  · intro c now held h
    have happ : (pollReload held c.surface c.state now c.live).outcome = .applied := by
      simpa using h
    rw [Controller.perform_poll_state, pollReload_window happ, satAdd_interval_toNat]
  · intro c hr
    rw [Controller.perform_poll_outcome,
      pollReload_applied c.live hr (UInt64.lt_irrefl c.state.nextAllowedNs)]

/-- A request polled exactly when the window ends applies, and opens the next window a second
later. -/
theorem boundary_poll_applies :
    let c : Controller := ⟨Surface.new.requestReload, ⟨1000000000, []⟩, ParamSet.default⟩
    (c.perform (.poll 1000000000 false)).1 = some .applied ∧
      (c.perform (.poll 1000000000 false)).2.state.nextAllowedNs.toNat = 2000000000 := by
  intro c
  have happ := reloads_are_debounced.2.2.2.1 c rfl
  refine ⟨happ, ?_⟩
  rw [reloads_are_debounced.2.1 c 1000000000 false happ]
  decide

end PointerAccel
