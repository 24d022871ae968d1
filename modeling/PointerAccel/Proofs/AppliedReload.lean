import Mathlib
import PointerAccel.Proofs.Decimal.ReadBack

/-!
# What an applied reload installs

An applied reload reads every surface string with the controller's float reader onto a copy of
the live set and installs the copy in one step. The reader is a parameter here, as it is of the
controller: the engine's controller uses the standard reader `readParamFloat`, and the laws hold
for any reader.

A field whose text reads takes the value read; a field whose text does not read keeps its live
value and is reported. The report lists the failed fields in the fixed field order, whatever
order they were edited in, and the mode comes from the mode byte. Every outcome but an applied
one leaves the live set alone.

* `ParamName.mem_all`: the field order lists every field;
* `Surface.mem_rejected_parseOnto`: a field is reported exactly when its text does not read;
* `reload_swaps_in_parsed_set`: the laws together, for one poll.
-/

namespace PointerAccel

theorem ParamName.mem_all (n : ParamName) : n ∈ ParamName.all := by
  cases n <;> decide

theorem Surface.mem_rejected_parseOnto (s : Surface) (parse : String → Option Float32)
    (base : ParamSet) (n : ParamName) :
    n ∈ (s.parseOnto parse base).2 ↔ parse (s.text n) = none := by
  rw [Surface.rejected_parseOnto, List.mem_filter, Option.isNone_iff_eq_none]
  exact and_iff_right (ParamName.mem_all n)

/-- A poll that applies a reload installs the surface read onto the live set: a field whose
text the reader reads takes the value read and is not reported, any other field keeps its live
value and is reported, the mode comes from the mode byte, and the report lists the failed fields
in field order. A poll with any other outcome (idle, debounced, contended) leaves the live set
untouched. -/
theorem reload_swaps_in_parsed_set (parse : String → Option Float32) (held : Bool) (s : Surface)
    (st : ReloadState) (now : UInt64) (live : ParamSet) :
    let r := pollReloadWith parse held s st now live
    (r.outcome = .applied →
      (∀ n v, parse (s.text n) = some v → r.live.get n = v ∧ n ∉ r.state.rejected) ∧
      (∀ n, parse (s.text n) = none → r.live.get n = live.get n ∧ n ∈ r.state.rejected) ∧
      r.live.mode = AccelMode.ofCode s.modeCode ∧
      r.state.rejected = ParamName.all.filter fun n => (parse (s.text n)).isNone) ∧
    (r.outcome ≠ .applied → r.live = live) := by
  intro r
  refine ⟨fun happ => ?_, fun hne => (pollReloadWith_of_ne_applied hne).2.2⟩
  obtain ⟨-, -, -, -, hst, hlive⟩ := pollReloadWith_of_applied happ
  have hrej : r.state.rejected = (s.parseOnto parse live).2 := by
    change (pollReloadWith parse held s st now live).state.rejected = _
    rw [hst]
  have hget : ∀ n, r.live.get n = (parse (s.text n)).getD (live.get n) := by
    intro n
    change (pollReloadWith parse held s st now live).live.get n = _
    rw [hlive, Surface.get_parseOnto]
  refine ⟨fun n v hv => ?_, fun n hv => ?_, ?_, ?_⟩
  · rw [hget, hv, hrej, Surface.mem_rejected_parseOnto, hv]
    exact ⟨rfl, Option.some_ne_none v⟩
  · rw [hget, hv, hrej, Surface.mem_rejected_parseOnto]
    exact ⟨rfl, hv⟩
  · change (pollReloadWith parse held s st now live).live.mode = _
    rw [hlive, Surface.mode_parseOnto]
  · rw [hrej, Surface.rejected_parseOnto]

/-- Writing an unreadable offset and then an empty speed cap onto the surface of the defaults,
and polling once at time zero with the standard reader: the poll applies, both fields are
reported in field order (the speed cap first), and the offset keeps its live value. -/
theorem unreadable_fields_reported_in_field_order :
    let s := ((Surface.new.setText .offset "two").setText .speedCap "").requestReload
    let r := pollReloadWith readParamFloat false s ReloadState.initial 0 ParamSet.default
    r.outcome = .applied ∧ r.state.rejected = [.speedCap, .offset] ∧
      r.live.get .offset = ParamSet.default.offset := by
  intro s r
  have happ : r.outcome = .applied := by
    change (pollReloadWith readParamFloat false s ReloadState.initial 0 ParamSet.default).outcome = _
    rw [pollReloadWith_applied readParamFloat ParamSet.default rfl (by decide)]
  obtain ⟨-, hfail, -, hrej⟩ := (reload_swaps_in_parsed_set readParamFloat false s
    ReloadState.initial 0 ParamSet.default).1 happ
  have hread : ∀ n, n ≠ .offset → n ≠ .speedCap → (readParamFloat (s.text n)).isNone = false := by
    intro n ho hc
    change (readParamFloat (if n = .speedCap then "" else if n = .offset then "two" else
      Binary.display (ParamSet.default.get n))).isNone = _
    rw [if_neg hc, if_neg ho, Binary.readParamFloat_display]
    rfl
  have hoff : readParamFloat (s.text .offset) = none := by decide +kernel
  have hcap : readParamFloat (s.text .speedCap) = none := by decide +kernel
  refine ⟨happ, ?_, (hfail .offset hoff).1⟩
  rw [hrej]
  simp only [ParamName.all, List.filter_cons, List.filter_nil, hoff, hcap, Option.isNone_none,
    hread, ne_eq, reduceCtorEq, not_false_eq_true, if_true, Bool.false_eq_true, if_false]

end PointerAccel
