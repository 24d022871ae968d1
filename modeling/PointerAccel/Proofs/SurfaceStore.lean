import Mathlib
import PointerAccel.Proofs.PendingRequest

/-!
# The surface as a key-value store

Seen through its setters and getters, the tunable surface is a store with three kinds of keys.
A field key holds a text, stored verbatim and read back as stored. The mode key holds a byte,
written as a trimmed byte numeral (`+7` and ` 07 ` both store 7) and read back in decimal. The
update key only raises the reload request, when the byte written is not zero. A write by key
that is refused, for an unknown key or a value that is not a byte, changes nothing and says why,
with the value as it was given.

* `ParamName.ofKey?_eq_some_iff`: a field is found by exactly its own key;
* `Surface.getByKey_key`, `Surface.getByKey_modeKey`: what a read by key returns;
* `Surface.setByKey_eq_error_iff`, `Surface.edit_setByKey_of_error`: the refused writes;
* `Surface.foldl_edit_text`, `Surface.foldl_edit_modeCode`, `Surface.foldl_edit_reloadRequested`:
  over any sequence of writes, the last write wins, and the request is raised by any write that
  raises it;
* `surface_is_key_value_store`: the laws together.
-/

namespace PointerAccel

open PointerAccel.Binary PointerAccel.Text

namespace ParamName

theorem ofKey?_key (n : ParamName) : ofKey? n.key = some n := by
  cases n <;> rfl

theorem ofKey?_eq_some_iff {k : String} {n : ParamName} : ofKey? k = some n ↔ k = n.key := by
  constructor
  · intro h
    have hk := List.find?_some h
    simp only [beq_iff_eq] at hk
    exact hk.symm
  · rintro rfl
    exact ofKey?_key n

end ParamName

namespace Surface

theorem Edit.textFor?_setByKey (k v : String) (n : ParamName) :
    (Edit.setByKey k v).textFor? n = if k = n.key then some v else none := by
  simp only [Edit.textFor?, ParamName.ofKey?_eq_some_iff]

/-! ## Reading by key -/

theorem getByKey_key (s : Surface) (n : ParamName) : s.getByKey n.key = .ok (s.text n) := by
  unfold getByKey
  rw [ParamName.ofKey?_key]

theorem getByKey_modeKey (s : Surface) : s.getByKey modeKey = .ok (natText s.modeCode.toNat) := by
  unfold getByKey
  rw [ofKey_modeKey]
  exact if_pos rfl

/-! ## Writing by key -/

theorem setByKey_updateKey_of_byte (s : Surface) {v : String} {b : UInt8}
    (h : readByte (trimSpace v) = some b) :
    s.setByKey updateKey v = .ok (if b = 0 then s else s.requestReload) := by
  unfold setByKey readKeyByte
  rw [ofKey_updateKey, if_neg updateKey_ne_modeKey, if_pos rfl, h]
  rfl

/-- A write by key is refused exactly for a key of no kind, or for a mode or update value that
does not read as a byte; the error names the key and, for a bad value, the value as given. -/
theorem setByKey_eq_error_iff (s : Surface) (k v : String) (e : ParamError) :
    s.setByKey k v = .error e ↔
      (ParamName.ofKey? k = none ∧ k ≠ modeKey ∧ k ≠ updateKey ∧ e = .unknownParameter k) ∨
      ((k = modeKey ∨ k = updateKey) ∧ readByte (trimSpace v) = none ∧ e = .unparsable k v) := by
  unfold setByKey readKeyByte
  cases hk : ParamName.ofKey? k with
  | some n =>
    simp only [reduceCtorEq, false_and, false_or]
    refine iff_of_false id ?_
    rintro ⟨rfl | rfl, -⟩ <;> simp_all [ofKey_modeKey, ofKey_updateKey]
  | none =>
    dsimp only
    by_cases hm : k = modeKey
    · subst hm
      cases readByte (trimSpace v) <;> simp [Except.map, eq_comm]
    · by_cases hu : k = updateKey
      · subst hu
        cases readByte (trimSpace v) <;> simp [Except.map, hm, eq_comm]
      · simp [hm, hu, eq_comm]

theorem edit_setByKey_of_error {s : Surface} {k v : String} {e : ParamError}
    (h : s.setByKey k v = .error e) : s.edit (.setByKey k v) = s := by
  unfold edit
  dsimp only
  rw [h]

/-! ## Sequences of writes -/

theorem foldl_edit_eq_run (s : Surface) (ws : List Edit) (st : ReloadState) (live : ParamSet) :
    ws.foldl edit s = (Controller.run ⟨s, st, live⟩ (ws.map .edit)).surface := by
  induction ws generalizing s with
  | nil => rfl
  | cons w ws ih => exact ih (s.edit w)

theorem foldl_edit_text (s : Surface) (ws : List Edit) (n : ParamName) :
    (ws.foldl edit s).text n = ((ws.filterMap (·.textFor? n)).getLast?).getD (s.text n) := by
  rw [foldl_edit_eq_run s ws ⟨0, []⟩ ParamSet.default, Controller.run_text, List.filterMap_map]
  rfl

theorem foldl_edit_modeCode (s : Surface) (ws : List Edit) :
    (ws.foldl edit s).modeCode = ((ws.filterMap Edit.modeFor?).getLast?).getD s.modeCode := by
  rw [foldl_edit_eq_run s ws ⟨0, []⟩ ParamSet.default, Controller.run_modeCode, List.filterMap_map]
  rfl

theorem foldl_edit_reloadRequested (s : Surface) (ws : List Edit) :
    (ws.foldl edit s).reloadRequested = (s.reloadRequested || ws.any Edit.raises) := by
  induction ws generalizing s with
  | nil => simp
  | cons w ws ih =>
    rw [List.foldl_cons, ih, edit_reloadRequested, List.any_cons, Bool.or_assoc]

end Surface

/-- The tunable surface is a key-value store. After any sequence of writes, a field's text,
read directly or by its key, is the text of the last write to that field, verbatim; the mode
key reads back, in decimal, the last byte stored by a mode write or by a write to the mode key
whose trimmed value reads as a byte; and the request is raised if it was or if a write raised
it. A write to the update key raises the request for a non-zero byte and changes nothing for
zero. A write by key is refused exactly for an unknown key or a value that is not a byte,
reported with the key and the value as given, and a refused write changes nothing. -/
theorem surface_is_key_value_store (s : Surface) (ws : List Surface.Edit) :
    (∀ n, (ws.foldl Surface.edit s).text n =
        ((ws.filterMap (·.textFor? n)).getLast?).getD (s.text n) ∧
      (ws.foldl Surface.edit s).getByKey n.key = .ok ((ws.foldl Surface.edit s).text n)) ∧
    (∀ k v n, (Surface.Edit.setByKey k v).textFor? n = if k = n.key then some v else none) ∧
    (ws.foldl Surface.edit s).getByKey modeKey =
      .ok (natText (((ws.filterMap Surface.Edit.modeFor?).getLast?).getD s.modeCode).toNat) ∧
    (ws.foldl Surface.edit s).reloadRequested = (s.reloadRequested || ws.any Surface.Edit.raises) ∧
    (∀ v b, readByte (trimSpace v) = some b →
      s.setByKey updateKey v = .ok (if b = 0 then s else s.requestReload)) ∧
    (∀ k v e, s.setByKey k v = .error e ↔
      (ParamName.ofKey? k = none ∧ k ≠ modeKey ∧ k ≠ updateKey ∧ e = .unknownParameter k) ∨
      ((k = modeKey ∨ k = updateKey) ∧ readByte (trimSpace v) = none ∧ e = .unparsable k v)) ∧
    (∀ k v e, s.setByKey k v = .error e → s.edit (.setByKey k v) = s) := by
  refine ⟨fun n => ⟨Surface.foldl_edit_text s ws n, Surface.getByKey_key _ n⟩,
    Surface.Edit.textFor?_setByKey, ?_, Surface.foldl_edit_reloadRequested s ws,
    fun v b h => s.setByKey_updateKey_of_byte h, s.setByKey_eq_error_iff,
    fun k v e h => Surface.edit_setByKey_of_error h⟩
  rw [Surface.getByKey_modeKey, Surface.foldl_edit_modeCode]

/-- A sign and blanks around a mode byte are accepted, a word is refused and leaves the last
byte in place, and a zero written to the update key changes nothing. -/
theorem mode_bytes_read_trimmed :
    readByte (trimSpace "+7") = some 7 ∧ readByte (trimSpace " 07 ") = some 7 ∧
      readByte (trimSpace " 0 ") = some 0 ∧
      Surface.new.setByKey updateKey " 0 " = .ok Surface.new ∧
      (([.setByKey modeKey "+7", .setByKey modeKey " 07 ", .setByKey modeKey "seven"] :
          List Surface.Edit).foldl Surface.edit Surface.new).getByKey modeKey = .ok "7" := by
  have h₁ : readByte (trimSpace "+7") = some 7 := by decide
  have h₂ : readByte (trimSpace " 07 ") = some 7 := by decide
  have h₀ : readByte (trimSpace " 0 ") = some 0 := by decide
  obtain ⟨-, -, hmode, -, hupdate, -, -⟩ := surface_is_key_value_store Surface.new
    [.setByKey modeKey "+7", .setByKey modeKey " 07 ", .setByKey modeKey "seven"]
  refine ⟨h₁, h₂, h₀, by simpa using hupdate " 0 " 0 h₀, ?_⟩
  rw [hmode]
  exact congrArg Except.ok (by decide +kernel)

end PointerAccel
