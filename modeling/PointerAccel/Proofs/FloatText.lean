import Mathlib
import PointerAccel.Proofs.Decimal.ReadBack

/-!
# The grammar of parameter floats

A surface string is trimmed of Unicode white space, and a single trailing `f` or `F` is dropped
when what is left is not empty and does not end in a letter of `nan` or `inf`; what remains is
read by the standard float reader. So the accepted texts are the reader's literals, with
optional white space around them, and the decimal numerals among them also with one `f` or `F`
after them. `inf` keeps its `f`, and a second suffix is never accepted.

* `readNumber_getLast`: a numeral the reader accepts ends in a digit or a point;
* `trimSpace_around`: trimming removes exactly the white space around a text with visible ends;
* `readParamFloat_of_suffixed`, `readParamFloat_of_not_suffixed`: the suffix rule;
* `surface_float_grammar`: the rule and what follows from it, for every text.
-/

namespace PointerAccel

open PointerAccel.Binary PointerAccel.Text

/-! ## Characters -/

theorem isUnicodeSpace_of_printable {c : Char} (hlo : 0x20 < c.toNat) (hhi : c.toNat < 0x7F) :
    isUnicodeSpace c = false := by
  unfold isUnicodeSpace
  simp only [Bool.or_eq_false_iff, decide_eq_false_iff_not, beq_eq_false_iff_ne, ne_eq]
  omega

theorem toNat_of_toLower_eq {c l : Char} (h : c.toLower = l) :
    c.toNat = l.toNat ∨ c.toNat + 32 = l.toNat := by
  unfold Char.toLower at h
  split at h
  · rename_i hup
    right
    have hZ : c.toNat ≤ 90 := UInt32.le_iff_toNat_le.1 hup.2
    rw [← h]
    change c.toNat + 32 = (c.val + ('a'.val - 'A'.val)).toNat
    have h32 : ('a'.val - 'A'.val).toNat = 32 := by decide
    rw [UInt32.toNat_add, h32, Char.toNat_val, Nat.mod_eq_of_lt (by omega)]
  · left
    rw [h]

theorem eq_or_eq_of_toLower_eq {c l u : Char} (h : c.toLower = l) (hu : u.toNat + 32 = l.toNat) :
    c = l ∨ c = u := by
  rcases toNat_of_toLower_eq h with h | h
  · exact .inl (Char.toNat_inj.1 h)
  · exact .inr (Char.toNat_inj.1 (by omega))

/-! ## Trimming -/

theorem dropWhile_space_prefix {pre rest : List Char} (hpre : ∀ c ∈ pre, isUnicodeSpace c = true)
    (hrest : ∀ c ∈ rest.head?, isUnicodeSpace c = false) :
    (pre ++ rest).dropWhile isUnicodeSpace = rest := by
  induction pre with
  | nil =>
    cases rest with
    | nil => rfl
    | cons c r => exact List.dropWhile_cons_of_neg (by simpa using hrest c rfl)
  | cons c pre ih =>
    rw [List.cons_append, List.dropWhile_cons_of_pos (hpre c List.mem_cons_self)]
    exact ih fun c' h => hpre c' (List.mem_cons_of_mem c h)

theorem trimSpace_around {pre body post : List Char} (hpre : ∀ c ∈ pre, isUnicodeSpace c = true)
    (hpost : ∀ c ∈ post, isUnicodeSpace c = true) (hne : body ≠ [])
    (hfirst : ∀ c ∈ body.head?, isUnicodeSpace c = false)
    (hlast : ∀ c ∈ body.getLast?, isUnicodeSpace c = false) :
    trimSpace (String.ofList (pre ++ body ++ post)) = String.ofList body := by
  have hhead : (body ++ post).head? = body.head? := by
    obtain ⟨c, cs, rfl⟩ := List.exists_cons_of_ne_nil hne
    rfl
  unfold trimSpace
  rw [String.toList_ofList, List.append_assoc, dropWhile_space_prefix hpre (by rwa [hhead]),
    List.reverse_append, dropWhile_space_prefix (by simpa using hpost) (by rwa [List.head?_reverse]),
    List.reverse_reverse]

/-! ## The suffix rule -/

theorem stripFloatSuffix_snoc {d : List Char} {c : Char} (hc : c = 'f' ∨ c = 'F') :
    stripFloatSuffix (String.ofList (d ++ [c])) = String.ofList d := by
  unfold stripFloatSuffix
  rw [String.toList_ofList, List.reverse_append]
  rcases hc with rfl | rfl <;> simp

theorem stripFloatSuffix_of_getLast {t : String}
    (h : ∀ c ∈ t.toList.getLast?, c ≠ 'f' ∧ c ≠ 'F') : stripFloatSuffix t = t := by
  unfold stripFloatSuffix
  rw [← List.head?_reverse] at h
  split
  · rename_i rest hr
    rw [hr] at h
    exact absurd rfl (h 'f' rfl).1
  · rename_i rest hr
    rw [hr] at h
    exact absurd rfl (h 'F' rfl).2
  · rfl

theorem endsLikeWord_nil : endsLikeWord (String.ofList []) = true := rfl

theorem endsLikeWord_snoc (d : List Char) (c : Char) :
    endsLikeWord (String.ofList (d ++ [c])) = (c == 'n' || c == 'N' || c == 'i' || c == 'I') := by
  unfold endsLikeWord
  rw [String.toList_ofList, List.reverse_append]
  rfl

/-- `t` is a body `d` followed by one `f` or `F`, where `d` is not empty and does not end in a
letter of `nan` or `inf`: the texts whose suffix the surface reader drops. -/
def Suffixed (t d : List Char) : Prop :=
  ∃ c x, t = d ++ [c] ∧ (c = 'f' ∨ c = 'F') ∧ d.getLast? = some x ∧
    x ≠ 'n' ∧ x ≠ 'N' ∧ x ≠ 'i' ∧ x ≠ 'I'

theorem readParamFloat_eq (raw : String) :
    readParamFloat raw =
      if endsLikeWord (stripFloatSuffix (trimSpace raw)) then readSingle (trimSpace raw)
      else readSingle (stripFloatSuffix (trimSpace raw)) := rfl

theorem readParamFloat_of_suffixed {raw : String} {d : List Char}
    (h : Suffixed (trimSpace raw).toList d) : readParamFloat raw = readSingle (String.ofList d) := by
  obtain ⟨c, x, ht, hc, hx, hn, hN, hi, hI⟩ := h
  obtain ⟨d', rfl⟩ := List.getLast?_eq_some_iff.1 hx
  have htrim : trimSpace raw = String.ofList (d' ++ [x] ++ [c]) := by
    rw [← ht, String.ofList_toList]
  have hword : endsLikeWord (String.ofList (d' ++ [x])) = false := by
    rw [endsLikeWord_snoc]
    simp [hn, hN, hi, hI]
  rw [readParamFloat_eq, htrim, stripFloatSuffix_snoc hc, hword, if_neg Bool.false_ne_true]

theorem readParamFloat_of_not_suffixed {raw : String}
    (h : ∀ d, ¬ Suffixed (trimSpace raw).toList d) : readParamFloat raw = readSingle (trimSpace raw) := by
  rw [readParamFloat_eq]
  rcases List.eq_nil_or_concat (trimSpace raw).toList with ht | ⟨L, c, ht⟩
  · have hstrip := stripFloatSuffix_of_getLast (t := trimSpace raw) (by rw [ht]; simp)
    have hempty : trimSpace raw = String.ofList [] := by rw [← ht, String.ofList_toList]
    rw [hstrip, hempty, endsLikeWord_nil, if_pos rfl]
  rw [List.concat_eq_append] at ht
  by_cases hc : c = 'f' ∨ c = 'F'
  · have htrim : trimSpace raw = String.ofList (L ++ [c]) := by rw [← ht, String.ofList_toList]
    have hword : endsLikeWord (String.ofList L) = true := by
      rcases List.eq_nil_or_concat L with rfl | ⟨L', x, rfl⟩
      · exact endsLikeWord_nil
      · rw [List.concat_eq_append] at ht ⊢
        rw [endsLikeWord_snoc]
        by_contra hw
        exact h (L' ++ [x]) ⟨c, x, ht, hc, List.getLast?_concat .., by simpa [not_or, and_assoc] using hw⟩
    rw [htrim, stripFloatSuffix_snoc hc, hword, if_pos rfl]
  · have hstrip := stripFloatSuffix_of_getLast (t := trimSpace raw) (by
      rw [ht, List.getLast?_append_of_ne_nil _ (List.cons_ne_nil c []), List.getLast?_singleton]
      simpa [not_or] using hc)
    rw [hstrip, ite_self]

/-! ## Numerals

A numeral the reader accepts begins and ends with a digit or a point, so it is never one of the
words, and a letter after it is never part of it. -/

theorem isDigit_iff_toNat {z : Char} : z.isDigit = true ↔ 48 ≤ z.toNat ∧ z.toNat ≤ 57 := by
  unfold Char.isDigit
  simp only [Bool.and_eq_true, decide_eq_true_eq, UInt32.le_iff_toNat_le]
  rfl

theorem toNat_of_numeral_char {z : Char} (hz : z.isDigit = true ∨ z = '.') :
    46 ≤ z.toNat ∧ z.toNat ≤ 57 := by
  rcases hz with hz | rfl
  · have := isDigit_iff_toNat.1 hz
    omega
  · decide

theorem numeral_char_ne {z l : Char} (hz : z.isDigit = true ∨ z = '.') (hl : 57 < l.toNat) :
    z ≠ l := by
  rintro rfl
  have := (toNat_of_numeral_char hz).2
  omega

theorem isUnicodeSpace_of_numeral_char {z : Char} (hz : z.isDigit = true ∨ z = '.') :
    isUnicodeSpace z = false := by
  have := toNat_of_numeral_char hz
  exact isUnicodeSpace_of_printable (by omega) (by omega)

theorem readDigits_split : ∀ (cs : List Char) (acc n : Nat), ∃ ds,
    cs = ds ++ (readDigits cs acc n).2.2 ∧ (∀ c ∈ ds, c.isDigit = true) ∧
      (readDigits cs acc n).2.1 = n + ds.length
  | [], acc, n => ⟨[], rfl, by simp, by simp [readDigits]⟩
  | c :: cs, acc, n => by
    by_cases hc : c.isDigit = true
    · obtain ⟨ds, hcs, hds, hlen⟩ := readDigits_split cs (acc * 10 + (c.toNat - '0'.toNat)) (n + 1)
      rw [readDigits, if_pos hc]
      refine ⟨c :: ds, by rw [List.cons_append, ← hcs], ?_, by rw [hlen, List.length_cons]; omega⟩
      intro c' hc'
      rcases List.mem_cons.1 hc' with rfl | h
      · exact hc
      · exact hds c' h
    · rw [readDigits, if_neg hc]
      exact ⟨[], rfl, by simp, by simp⟩

theorem getLast_of_forall {l : List Char} {p : Char → Prop} (hne : l ≠ []) (h : ∀ c ∈ l, p c) :
    ∃ c, l.getLast? = some c ∧ p c :=
  ⟨l.getLast hne, List.getLast?_eq_some_getLast hne, h _ (List.getLast_mem hne)⟩

theorem getLast_append_of_getLast {l r : List Char} {x : Char} (h : r.getLast? = some x) :
    (l ++ r).getLast? = some x := by
  rw [List.getLast?_append, h]
  rfl

theorem getLast_of_readDigits {cs : List Char} {acc n v k : Nat} (h : readDigits cs acc n = (v, k, []))
    (hk : k ≠ n) : ∃ c, cs.getLast? = some c ∧ c.isDigit = true := by
  obtain ⟨ds, hcs, hds, hlen⟩ := readDigits_split cs acc n
  rw [h] at hcs hlen
  dsimp only at hcs hlen
  rw [List.append_nil] at hcs
  subst hcs
  exact getLast_of_forall (by rintro rfl; simp at hlen; omega) hds

theorem readExponent_getLast {cs : List Char} {e : Int} (h : readExponent cs = some e) :
    ∃ c, cs.getLast? = some c ∧ c.isDigit = true := by
  unfold readExponent at h
  split at h
  rename_i neg rest hsign
  have hrest : ∃ c, rest.getLast? = some c ∧ c.isDigit = true := by
    split at h
    · rename_i v n hd
      split at h
      · cases h
      · exact getLast_of_readDigits hd ‹_›
    · cases h
  obtain ⟨c, hc, hdig⟩ := hrest
  split at hsign <;> obtain ⟨-, rfl⟩ := Prod.mk.inj hsign
  · exact ⟨c, by rw [List.getLast?_cons, hc]; rfl, hdig⟩
  · exact ⟨c, by rw [List.getLast?_cons, hc]; rfl, hdig⟩
  · exact ⟨c, hc, hdig⟩

theorem getLast_of_exponent {c : Char} {r : List Char} {f : Int → Nat × Int} {p : Nat × Int}
    (h : (if c = 'e' ∨ c = 'E' then Option.map f (readExponent r) else none) = some p) :
    ∃ d, (c :: r).getLast? = some d ∧ d.isDigit = true := by
  split at h
  · obtain ⟨e, he, -⟩ := Option.map_eq_some_iff.1 h
    obtain ⟨d, hd, hdig⟩ := readExponent_getLast he
    exact ⟨d, by rw [List.getLast?_cons, hd]; rfl, hdig⟩
  · cases h

theorem readNumber_getLast {cs : List Char} {p : Nat × Int} (h : readNumber cs = some p) :
    ∃ c, cs.getLast? = some c ∧ (c.isDigit = true ∨ c = '.') := by
  unfold readNumber at h
  obtain ⟨ds₁, hcs, hds₁, hn₁⟩ := readDigits_split cs 0 0
  generalize readDigits cs 0 0 = R at h hcs hn₁
  obtain ⟨iv, nInt, r₁⟩ := R
  dsimp only at h hcs hn₁
  split at h
  · rename_i r
    obtain ⟨ds₂, hr, hds₂, -⟩ := readDigits_split r iv 0
    generalize readDigits r iv 0 = R₂ at h hr
    obtain ⟨val, nFrac, r₂⟩ := R₂
    dsimp only at h hr
    subst hcs hr
    split at h
    · cases h
    split at h
    · rw [List.append_nil]
      rcases List.eq_nil_or_concat ds₂ with rfl | ⟨ds, d, rfl⟩
      · exact ⟨'.', by simp, .inr rfl⟩
      · refine ⟨d, ?_, .inl (hds₂ d (by simp))⟩
        rw [List.concat_eq_append, ← List.cons_append, ← List.append_assoc, List.getLast?_concat]
    · obtain ⟨d, hd, hdig⟩ := getLast_of_exponent h
      exact ⟨d, by rw [← List.cons_append]; exact getLast_append_of_getLast (getLast_append_of_getLast hd),
        .inl hdig⟩
  · subst hcs
    dsimp only at h
    split at h
    · cases h
    split at h
    · rename_i hn _
      rw [List.append_nil]
      exact (getLast_of_forall (by rintro rfl; simp at hn₁; omega) hds₁).imp fun d hd => ⟨hd.1, .inl hd.2⟩
    · obtain ⟨d, hd, hdig⟩ := getLast_of_exponent h
      exact ⟨d, getLast_append_of_getLast hd, .inl hdig⟩

theorem readNumber_cons {c : Char} (hc : c.isDigit = false) (hdot : c ≠ '.') (cs : List Char) :
    readNumber (c :: cs) = none := by
  simp [readNumber, readDigits, hc, hdot]

theorem readNumber_head {cs : List Char} {p : Nat × Int} (h : readNumber cs = some p) :
    ∃ c, cs.head? = some c ∧ (c.isDigit = true ∨ c = '.') := by
  cases cs with
  | nil => cases h
  | cons c cs =>
    refine ⟨c, rfl, ?_⟩
    by_contra hc
    rw [not_or, Bool.not_eq_true] at hc
    rw [readNumber_cons hc.1 hc.2] at h
    cases h

theorem readLiteral_number_split {s : String} {x : Decimal} (h : readLiteral s = some (.number x)) :
    ∃ sgn body p, s.toList = sgn ++ body ∧ (sgn = [] ∨ sgn = ['-'] ∨ sgn = ['+']) ∧
      readNumber body = some p := by
  unfold readLiteral at h
  dsimp only at h
  have hword : ∀ (rest : List Char) (neg : Bool),
      (if rest.isEmpty = true then none else
        if (sameWordIgnoringCase rest "inf".toList ||
            sameWordIgnoringCase rest "infinity".toList) = true
        then some (Literal.infinity neg)
        else if sameWordIgnoringCase rest "nan".toList = true then some (Literal.nan neg)
        else none) ≠ some (Literal.number x) := by
    intro rest neg hr
    split at hr
    · cases hr
    split at hr
    · cases hr
    split at hr <;> cases hr
  split at h
  · rename_i r hr
    cases hn : readNumber r with
    | none => simp only [hn] at h; exact absurd h (hword r true)
    | some p => exact ⟨['-'], r, p, hr, .inr (.inl rfl), hn⟩
  · rename_i r hr
    cases hn : readNumber r with
    | none => simp only [hn] at h; exact absurd h (hword r false)
    | some p => exact ⟨['+'], r, p, hr, .inr (.inr rfl), hn⟩
  · cases hn : readNumber s.toList with
    | none => simp only [hn] at h; exact absurd h (hword s.toList false)
    | some p => exact ⟨[], s.toList, p, rfl, .inl rfl, hn⟩

theorem readLiteral_number_ends {s : String} {x : Decimal} (h : readLiteral s = some (.number x)) :
    (∃ a, s.toList.head? = some a ∧ isUnicodeSpace a = false) ∧
      ∃ z, s.toList.getLast? = some z ∧ (z.isDigit = true ∨ z = '.') := by
  obtain ⟨sgn, body, p, hs, hsgn, hb⟩ := readLiteral_number_split h
  obtain ⟨z, hz, hzd⟩ := readNumber_getLast hb
  refine ⟨?_, z, by rw [hs]; exact getLast_append_of_getLast hz, hzd⟩
  rw [hs]
  rcases hsgn with rfl | rfl | rfl
  · obtain ⟨y, hy, hyd⟩ := readNumber_head hb
    exact ⟨y, hy, isUnicodeSpace_of_numeral_char hyd⟩
  · exact ⟨'-', rfl, by decide⟩
  · exact ⟨'+', rfl, by decide⟩

/-! ## Words -/

theorem sameWordIgnoringCase_snoc {a b : List Char} {x y : Char}
    (h : sameWordIgnoringCase (a ++ [x]) (b ++ [y]) = true) :
    sameWordIgnoringCase a b = true ∧ x.toLower = y.toLower := by
  unfold sameWordIgnoringCase at h ⊢
  rw [beq_iff_eq, List.map_append, List.map_append] at h
  obtain ⟨hab, hxy⟩ := List.append_inj' h (by simp)
  exact ⟨beq_iff_eq.2 hab, by simpa using hxy⟩

theorem sameWordIgnoringCase_snoc_of_ne {a b : List Char} {x y : Char}
    (h : x.toLower ≠ y.toLower) : sameWordIgnoringCase (a ++ [x]) (b ++ [y]) = false :=
  Bool.eq_false_iff.2 fun hw => h (sameWordIgnoringCase_snoc hw).2

theorem toLower_of_numeral_char {z : Char} (hz : z.isDigit = true ∨ z = '.') : z.toLower = z := by
  have := (toNat_of_numeral_char hz).2
  unfold Char.toLower
  rw [dif_neg]
  intro hup
  have : 65 ≤ z.toNat := UInt32.le_iff_toNat_le.1 hup.1
  omega

theorem numeral_suffix_not_literal {body : List Char} {p : Nat × Int}
    (hb : readNumber body = some p) {c : Char} (hc : c = 'f' ∨ c = 'F') :
    readNumber (body ++ [c]) = none ∧
      (sameWordIgnoringCase (body ++ [c]) "inf".toList ||
        sameWordIgnoringCase (body ++ [c]) "infinity".toList) = false ∧
      sameWordIgnoringCase (body ++ [c]) "nan".toList = false := by
  obtain ⟨z, hz, hzd⟩ := readNumber_getLast hb
  obtain ⟨body', rfl⟩ := List.getLast?_eq_some_iff.1 hz
  have hcl : c.toLower = 'f' := by rcases hc with rfl | rfl <;> rfl
  refine ⟨?_, Bool.or_eq_false_iff.2 ⟨?_, ?_⟩, ?_⟩
  · cases h : readNumber (body' ++ [z] ++ [c]) with
    | none => rfl
    | some q =>
      obtain ⟨z', hz', hd'⟩ := readNumber_getLast h
      rw [List.getLast?_concat, Option.some.injEq] at hz'
      subst hz'
      rcases hc with rfl | rfl <;> exact absurd hd' (by decide)
  · rw [show "inf".toList = ['i'] ++ ['n'] ++ ['f'] from rfl]
    refine Bool.eq_false_iff.2 fun hw => ?_
    have hn := (sameWordIgnoringCase_snoc (sameWordIgnoringCase_snoc hw).1).2
    rw [toLower_of_numeral_char hzd] at hn
    exact numeral_char_ne hzd (by decide) hn
  · rw [show "infinity".toList = "infinit".toList ++ ['y'] from rfl]
    exact sameWordIgnoringCase_snoc_of_ne (by rw [hcl]; decide)
  · rw [show "nan".toList = ['n', 'a'] ++ ['n'] from rfl]
    exact sameWordIgnoringCase_snoc_of_ne (by rw [hcl]; decide)

theorem readLiteral_numeral_suffix {s : String} {x : Decimal} (h : readLiteral s = some (.number x))
    {c : Char} (hc : c = 'f' ∨ c = 'F') : readLiteral (String.ofList (s.toList ++ [c])) = none := by
  obtain ⟨sgn, body, p, hs, hsgn, hb⟩ := readLiteral_number_split h
  obtain ⟨hnum, hword, hnan⟩ := numeral_suffix_not_literal hb hc
  obtain ⟨y, hy, hyd⟩ := readNumber_head hb
  obtain ⟨body', rfl⟩ : ∃ body', body = y :: body' := List.head?_eq_some_iff.1 hy
  simp only [List.cons_append] at hnum hword hnan
  rw [hs, List.append_assoc]
  unfold readLiteral
  rcases hsgn with rfl | rfl | rfl <;>
    simp only [List.nil_append, List.cons_append, String.toList_ofList]
  split
  case h_1 r hr =>
    obtain ⟨rfl, -⟩ := List.cons.inj hr
    exact absurd hyd (by decide)
  case h_2 r hr =>
    obtain ⟨rfl, -⟩ := List.cons.inj hr
    exact absurd hyd (by decide)
  all_goals simp only [List.isEmpty_cons, hnum, hword, hnan, Bool.false_eq_true, if_false]

theorem inf_spelling {w : List Char} (hw : w.map Char.toLower = "inf".toList) :
    ∃ a b c, w = [a, b, c] ∧ (a = 'i' ∨ a = 'I') ∧ (b = 'n' ∨ b = 'N') ∧ (c = 'f' ∨ c = 'F') := by
  rw [show "inf".toList = ['i', 'n', 'f'] from rfl] at hw
  rcases w with _ | ⟨a, _ | ⟨b, _ | ⟨c, _ | ⟨d, w⟩⟩⟩⟩ <;> simp only [List.map_cons, List.map_nil,
    List.cons.injEq, reduceCtorEq, and_false, and_true] at hw
  obtain ⟨ha, hb, hc⟩ := hw
  exact ⟨a, b, c, rfl, eq_or_eq_of_toLower_eq ha rfl, eq_or_eq_of_toLower_eq hb rfl,
    eq_or_eq_of_toLower_eq hc rfl⟩

theorem readLiteral_inf {sgn w : List Char} (hs : sgn = [] ∨ sgn = ['-'] ∨ sgn = ['+'])
    (hw : w.map Char.toLower = "inf".toList) :
    readLiteral (String.ofList (sgn ++ w)) = some (.infinity (sgn == ['-'])) := by
  have hword : sameWordIgnoringCase w "inf".toList = true := by
    unfold sameWordIgnoringCase
    rw [hw]
    rfl
  obtain ⟨a, b, c, rfl, ha, -, -⟩ := inf_spelling hw
  have hnum : readNumber [a, b, c] = none := by
    rcases ha with rfl | rfl <;> exact readNumber_cons (by decide) (by decide) _
  unfold readLiteral
  rcases hs with rfl | rfl | rfl <;>
    simp only [List.nil_append, List.cons_append, String.toList_ofList]
  split
  case h_1 r hr =>
    obtain ⟨rfl, -⟩ := List.cons.inj hr
    rcases ha with h | h <;> cases h
  case h_2 r hr =>
    obtain ⟨rfl, -⟩ := List.cons.inj hr
    rcases ha with h | h <;> cases h
  all_goals simp only [List.isEmpty_cons, hnum, hword, Bool.true_or, Bool.false_eq_true, if_false,
    if_true]
  all_goals rfl

/-! ## The grammar -/

theorem not_suffixed_of_getLast {t : List Char} {z : Char} (hz : t.getLast? = some z)
    (hf : z ≠ 'f') (hF : z ≠ 'F') (d : List Char) : ¬ Suffixed t d := by
  rintro ⟨c, x, rfl, hc, -⟩
  rw [List.getLast?_concat, Option.some.injEq] at hz
  subst hz
  rcases hc with rfl | rfl <;> contradiction

theorem readParamFloat_numeral {s : String} {x : Decimal} (h : readLiteral s = some (.number x))
    {pre sfx post : List Char} (hpre : ∀ c ∈ pre, isUnicodeSpace c = true)
    (hpost : ∀ c ∈ post, isUnicodeSpace c = true) (hsfx : sfx = [] ∨ sfx = ['f'] ∨ sfx = ['F']) :
    readParamFloat (String.ofList (pre ++ s.toList ++ sfx ++ post)) = readSingle s := by
  obtain ⟨⟨a, ha, hsa⟩, z, hz, hzd⟩ := readLiteral_number_ends h
  have hne : s.toList ≠ [] := by rintro h0; rw [h0] at ha; cases ha
  have hhead : (s.toList ++ sfx).head? = some a := by rw [List.head?_append, ha]; rfl
  have hlast : ∀ c ∈ (s.toList ++ sfx).getLast?, isUnicodeSpace c = false := by
    intro c hc
    rcases hsfx with rfl | rfl | rfl
    · rw [List.append_nil, hz, Option.mem_some_iff] at hc
      subst hc
      exact isUnicodeSpace_of_numeral_char hzd
    all_goals
      rw [List.getLast?_concat, Option.mem_some_iff] at hc
      subst hc
      decide
  have htrim : trimSpace (String.ofList (pre ++ s.toList ++ sfx ++ post)) =
      String.ofList (s.toList ++ sfx) := by
    rw [List.append_assoc pre]
    exact trimSpace_around hpre hpost (by simp [hne])
      (by rw [hhead]; rintro c ⟨⟩; exact hsa) hlast
  rcases hsfx with rfl | hsfx
  · rw [readParamFloat_of_not_suffixed, htrim, List.append_nil, String.ofList_toList]
    rw [htrim, String.toList_ofList, List.append_nil]
    exact not_suffixed_of_getLast hz (numeral_char_ne hzd (by decide)) (numeral_char_ne hzd (by decide))
  · obtain ⟨c, rfl, hc⟩ : ∃ c, sfx = [c] ∧ (c = 'f' ∨ c = 'F') := by
      rcases hsfx with rfl | rfl
      · exact ⟨'f', rfl, .inl rfl⟩
      · exact ⟨'F', rfl, .inr rfl⟩
    rw [readParamFloat_of_suffixed (d := s.toList), String.ofList_toList]
    rw [htrim, String.toList_ofList]
    exact ⟨c, z, rfl, hc, hz, numeral_char_ne hzd (by decide), numeral_char_ne hzd (by decide),
      numeral_char_ne hzd (by decide), numeral_char_ne hzd (by decide)⟩

theorem readParamFloat_inf {sgn w pre post : List Char} (hs : sgn = [] ∨ sgn = ['-'] ∨ sgn = ['+'])
    (hw : w.map Char.toLower = "inf".toList) (hpre : ∀ c ∈ pre, isUnicodeSpace c = true)
    (hpost : ∀ c ∈ post, isUnicodeSpace c = true) :
    readParamFloat (String.ofList (pre ++ sgn ++ w ++ post)) = readSingle (String.ofList (sgn ++ w)) := by
  obtain ⟨a, b, c, rfl, ha, hb, hc⟩ := inf_spelling hw
  have hhead : ∀ y ∈ (sgn ++ [a, b, c]).head?, isUnicodeSpace y = false := by
    intro y hy
    rcases hs with rfl | rfl | rfl <;> rw [Option.mem_def] at hy <;> cases hy
    · rcases ha with rfl | rfl <;> decide
    all_goals decide
  have hlast : ∀ y ∈ (sgn ++ [a, b, c]).getLast?, isUnicodeSpace y = false := by
    intro y hy
    rw [show sgn ++ [a, b, c] = sgn ++ [a, b] ++ [c] by simp, List.getLast?_concat,
      Option.mem_some_iff] at hy
    subst hy
    rcases hc with rfl | rfl <;> decide
  have htrim : trimSpace (String.ofList (pre ++ sgn ++ [a, b, c] ++ post)) =
      String.ofList (sgn ++ [a, b, c]) := by
    rw [List.append_assoc pre]
    exact trimSpace_around hpre hpost (by simp) hhead hlast
  rw [readParamFloat_of_not_suffixed, htrim]
  rintro d ⟨c', x, ht, -, hx, hn, hN, -⟩
  rw [htrim, String.toList_ofList, show sgn ++ [a, b, c] = sgn ++ [a, b] ++ [c] by simp] at ht
  obtain ⟨rfl, -⟩ := List.append_inj' ht rfl
  rw [show sgn ++ [a, b] = sgn ++ [a] ++ [b] by simp, List.getLast?_concat, Option.some.injEq] at hx
  subst hx
  rcases hb with rfl | rfl <;> contradiction

theorem readParamFloat_double_suffix {s : String} {x : Decimal} (h : readLiteral s = some (.number x))
    {c₁ c₂ : Char} (hc₁ : c₁ = 'f' ∨ c₁ = 'F') (hc₂ : c₂ = 'f' ∨ c₂ = 'F') :
    readParamFloat (String.ofList (s.toList ++ [c₁, c₂])) = none := by
  obtain ⟨⟨a, ha, hsa⟩, -⟩ := readLiteral_number_ends h
  have hhead : (s.toList ++ [c₁, c₂]).head? = some a := by rw [List.head?_append, ha]; rfl
  have htrim : trimSpace (String.ofList (s.toList ++ [c₁, c₂])) =
      String.ofList (s.toList ++ [c₁, c₂]) := by
    have := @trimSpace_around [] (s.toList ++ [c₁, c₂]) [] (by simp) (by simp) (by simp)
      (by rw [hhead]; rintro c ⟨⟩; exact hsa)
      (by rw [show s.toList ++ [c₁, c₂] = s.toList ++ [c₁] ++ [c₂] by simp, List.getLast?_concat]
          rintro c ⟨⟩
          rcases hc₂ with rfl | rfl <;> decide)
    rwa [List.nil_append, List.append_nil] at this
  have hsfx : Suffixed (trimSpace (String.ofList (s.toList ++ [c₁, c₂]))).toList (s.toList ++ [c₁]) := by
    rw [htrim, String.toList_ofList]
    refine ⟨c₂, c₁, by simp, hc₂, List.getLast?_concat, ?_⟩
    rcases hc₁ with rfl | rfl <;> decide
  rw [readParamFloat_of_suffixed hsfx, readSingle, readLiteral_numeral_suffix h hc₁, Option.map_none]

/-- The surface float grammar. A trimmed text that is a body and one droppable suffix letter is
read as the body, and any other trimmed text is read whole. Hence a numeral the reader accepts
reads the same with white space around it and with or without one `f` or `F`; `inf` in any case,
signed or not, keeps its `f` and reads as the infinity of its sign; and a numeral with two suffix
letters is refused. -/
theorem surface_float_grammar :
    (∀ raw d, Suffixed (trimSpace raw).toList d → readParamFloat raw = readSingle (String.ofList d)) ∧
    (∀ raw, (∀ d, ¬ Suffixed (trimSpace raw).toList d) →
      readParamFloat raw = readSingle (trimSpace raw)) ∧
    (∀ (s : String) (x : Decimal) (pre sfx post : List Char), readLiteral s = some (.number x) →
      (∀ c ∈ pre, isUnicodeSpace c = true) → (∀ c ∈ post, isUnicodeSpace c = true) →
      (sfx = [] ∨ sfx = ['f'] ∨ sfx = ['F']) →
      readParamFloat (String.ofList (pre ++ s.toList ++ sfx ++ post)) = readSingle s) ∧
    (∀ sgn w pre post : List Char, (sgn = [] ∨ sgn = ['-'] ∨ sgn = ['+']) →
      w.map Char.toLower = "inf".toList →
      (∀ c ∈ pre, isUnicodeSpace c = true) → (∀ c ∈ post, isUnicodeSpace c = true) →
      readParamFloat (String.ofList (pre ++ sgn ++ w ++ post)) = readSingle (String.ofList (sgn ++ w)) ∧
        readLiteral (String.ofList (sgn ++ w)) = some (.infinity (sgn == ['-']))) ∧
    (∀ (s : String) (x : Decimal) (c₁ c₂ : Char), readLiteral s = some (.number x) →
      (c₁ = 'f' ∨ c₁ = 'F') → (c₂ = 'f' ∨ c₂ = 'F') →
      readParamFloat (String.ofList (s.toList ++ [c₁, c₂])) = none) :=
  ⟨fun _ _ h => readParamFloat_of_suffixed h, fun _ h => readParamFloat_of_not_suffixed h,
    fun _ _ _ _ _ h hpre hpost hsfx => readParamFloat_numeral h hpre hpost hsfx,
    fun _ _ _ _ hs hw hpre hpost => ⟨readParamFloat_inf hs hw hpre hpost, readLiteral_inf hs hw⟩,
    fun _ _ _ _ h hc₁ hc₂ => readParamFloat_double_suffix h hc₁ hc₂⟩

/-- ` 2.5f` and a line break read as `2.5`, `-Inf` reads whole as negative infinity, and `2.5ff`
is refused. -/
theorem suffix_space_and_sign_cases :
    readParamFloat " 2.5f\n" = readSingle "2.5" ∧
      (readParamFloat "-Inf" = readSingle "-Inf" ∧ readLiteral "-Inf" = some (.infinity true)) ∧
      readParamFloat "2.5ff" = none := by
  obtain ⟨-, -, hnum, hinf, hdouble⟩ := surface_float_grammar
  have h25 : readLiteral "2.5" = some (.number ⟨false, 25, -1⟩) := by decide +kernel
  refine ⟨?_, ?_, ?_⟩
  · have := hnum "2.5" _ [' '] ['f'] ['\n'] h25
      (by simp only [List.mem_singleton, forall_eq]; decide)
      (by simp only [List.mem_singleton, forall_eq]; decide)
      (by decide)
    rwa [show String.ofList ([' '] ++ "2.5".toList ++ ['f'] ++ ['\n']) = " 2.5f\n" by decide +kernel]
      at this
  · have := hinf ['-'] ['I', 'n', 'f'] [] [] (by decide) (by decide +kernel) (by simp) (by simp)
    rwa [show String.ofList ([] ++ ['-'] ++ ['I', 'n', 'f'] ++ []) = "-Inf" by decide +kernel,
      show String.ofList (['-'] ++ ['I', 'n', 'f']) = "-Inf" by decide +kernel] at this
  · have := hdouble "2.5" _ 'f' 'f' h25 (.inl rfl) (.inl rfl)
    rwa [show String.ofList ("2.5".toList ++ ['f', 'f']) = "2.5ff" by decide +kernel] at this

example : readParamFloat "inff" = readSingle "inf" ∧ readParamFloat "NaNf" = none ∧
    readParamFloat "f" = none ∧ readParamFloat "-f" = none := by
  decide +kernel

end PointerAccel
