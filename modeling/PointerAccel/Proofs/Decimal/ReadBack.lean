import Mathlib
import PointerAccel.Params.Reload
import PointerAccel.Proofs.PendingRequest
import PointerAccel.Proofs.Decimal.Shortest

/-!
# Printed singles read back

`display` writes a single without an exponent and `readParamFloat` reads a surface string
back; this module proves that the second undoes the first on every single, signed zeros,
subnormals, infinities and NaN included.

* `readNumber_point`, `readNumber_integer`: a digit run read by `readDigits` is the number
  its digits spell, so the three positional layouts read back as `sig·10^exp10`;
* `roundTo_of_inRounding`: a numeral inside the rounding interval of a positive single
  passes both magnitude guards of the reader and rounds to that single;
* `singleOfBits_eq_of_decode`: a pattern that decodes as a single does gives that single,
  since the float model keeps one NaN;
* `readSingle_display`, `readParamFloat_display`: printing and reading back is the identity.
-/

namespace PointerAccel.Binary

open BinaryFormat

/-! ## Digit runs -/

/-- The number a run of decimal digits appends to `acc`, as `readDigits` accumulates it. -/
def digitValue (cs : List Char) (acc : Nat) : Nat :=
  cs.foldl (fun a c => a * 10 + (c.toNat - '0'.toNat)) acc

theorem digitValue_append (a b : List Char) (acc : Nat) :
    digitValue (a ++ b) acc = digitValue b (digitValue a acc) := List.foldl_append

theorem digitValue_zeros (z acc : Nat) : digitValue (List.replicate z '0') acc = acc * 10 ^ z := by
  induction z generalizing acc with
  | zero => simp [digitValue]
  | succ z ih =>
    rw [List.replicate_succ, ← List.singleton_append, digitValue_append, ih]
    simp [digitValue, pow_succ, Nat.mul_assoc, Nat.mul_comm 10]

theorem readDigits_append (rest : List Char) (hrest : ∀ c ∈ rest.head?, c.isDigit = false) :
    ∀ (cs : List Char) (acc n : Nat), (∀ c ∈ cs, c.isDigit = true) →
      readDigits (cs ++ rest) acc n = (digitValue cs acc, n + cs.length, rest)
  | [], acc, n, _ => by
    cases rest with
    | nil => rfl
    | cons c r =>
      have hc : c.isDigit = false := hrest c rfl
      simp [readDigits, hc, digitValue]
  | c :: cs, acc, n, hcs => by
    have hc : c.isDigit = true := hcs c List.mem_cons_self
    rw [List.cons_append, readDigits, if_pos hc,
      readDigits_append rest hrest cs _ _ fun c' h => hcs c' (List.mem_cons_of_mem c h)]
    simp only [digitValue, List.foldl_cons, List.length_cons]
    congr 2
    omega

theorem digit_char : ∀ d : Fin 10,
    (Char.ofNat (d.val + 48)).isDigit = true ∧ (Char.ofNat (d.val + 48)).toNat - '0'.toNat = d.val := by
  decide

theorem digitChars_isDigit (n : Nat) : ∀ c ∈ digitChars n, c.isDigit = true := by
  fun_induction digitChars n with
  | case1 n h =>
    intro c hc
    rw [List.mem_singleton.1 hc]
    exact (digit_char ⟨n, h⟩).1
  | case2 n h ih =>
    intro c hc
    rcases List.mem_append.1 hc with hc | hc
    · exact ih c hc
    · rw [List.mem_singleton.1 hc]
      exact (digit_char ⟨n % 10, Nat.mod_lt n (by norm_num)⟩).1

theorem length_digitChars (n : Nat) : (digitChars n).length = decimalLength n := by
  fun_induction digitChars n with
  | case1 n h => rw [decimalLength, if_pos h, List.length_singleton]
  | case2 n h ih => rw [decimalLength, if_neg h, List.length_append, ih, List.length_singleton]

theorem digitValue_digitChars (n acc : Nat) :
    digitValue (digitChars n) acc = acc * 10 ^ decimalLength n + n := by
  fun_induction digitChars n generalizing acc with
  | case1 n h =>
    have hd : (Char.ofNat (n + 48)).toNat - '0'.toNat = n := (digit_char ⟨n, h⟩).2
    rw [decimalLength, if_pos h]
    simp only [digitValue, List.foldl_cons, List.foldl_nil]
    rw [hd, pow_one]
  | case2 n h ih =>
    have hd : (Char.ofNat (n % 10 + 48)).toNat - '0'.toNat = n % 10 :=
      (digit_char ⟨n % 10, Nat.mod_lt n (by norm_num)⟩).2
    have hL : decimalLength n = decimalLength (n / 10) + 1 := by rw [decimalLength, if_neg h]
    rw [digitValue_append, ih, hL]
    simp only [digitValue, List.foldl_cons, List.foldl_nil]
    rw [hd, pow_succ]
    have := Nat.div_add_mod n 10
    ring_nf
    omega

theorem decimalLength_bounds {n : Nat} (hn : 0 < n) :
    10 ^ (decimalLength n - 1) ≤ n ∧ n < 10 ^ decimalLength n := by
  induction n using Nat.strong_induction_on with
  | _ n ih =>
    rw [decimalLength]
    split_ifs with h
    · simp only [Nat.sub_self, pow_zero, pow_one]
      omega
    · obtain ⟨h₁, h₂⟩ := ih (n / 10) (by omega) (by omega)
      rw [Nat.add_sub_cancel, pow_succ]
      have hlen : 1 ≤ decimalLength (n / 10) := by
        rw [decimalLength]
        split_ifs <;> omega
      obtain ⟨L, hL⟩ : ∃ L, decimalLength (n / 10) = L + 1 := ⟨_, (Nat.sub_add_cancel hlen).symm⟩
      rw [hL, Nat.add_sub_cancel] at h₁
      rw [hL, pow_succ] at h₂ ⊢
      omega

/-! ## The positional layouts -/

section Layouts

theorem readNumber_point {a b : List Char} (ha : ∀ c ∈ a, c.isDigit = true) (hne : a ≠ [])
    (hb : ∀ c ∈ b, c.isDigit = true) :
    readNumber (a ++ '.' :: b) = some (digitValue b (digitValue a 0), -(b.length : Int)) := by
  have hdot : ∀ c ∈ ('.' :: b).head?, c.isDigit = false := by
    intro c hc
    rw [List.head?_cons, Option.mem_def, Option.some.injEq] at hc
    rw [← hc]
    decide
  have hint := readDigits_append ('.' :: b) hdot a 0 0 ha
  have hfrac := readDigits_append [] (by simp) b (digitValue a 0) 0 hb
  rw [List.append_nil] at hfrac
  have hlen : a.length ≠ 0 := by simpa using hne
  unfold readNumber
  rw [hint]
  simp [hfrac, hlen]

theorem readNumber_integer {a : List Char} (ha : ∀ c ∈ a, c.isDigit = true) (hne : a ≠ []) :
    readNumber a = some (digitValue a 0, 0) := by
  have hint := readDigits_append [] (by simp) a 0 0 ha
  rw [List.append_nil] at hint
  have hlen : a.length ≠ 0 := by simpa using hne
  unfold readNumber
  rw [hint]
  simp [hlen]

theorem zeros_isDigit (z : Nat) : ∀ c ∈ List.replicate z '0', c.isDigit = true := by
  intro c hc
  rw [List.eq_of_mem_replicate hc]
  decide

variable {sig : Nat}

theorem readNumber_positional (hsig : 0 < sig) (point : Int) :
    ∃ v k, readNumber (positional (digitChars sig) point).toList = some (v, k) ∧ 0 < v ∧
      (v : ℚ) * 10 ^ k = sig * 10 ^ (point - decimalLength sig) := by
  have hds := digitChars_isDigit sig
  have hlen := length_digitChars sig
  have hval := digitValue_digitChars sig 0
  rw [Nat.zero_mul, Nat.zero_add] at hval
  have hne : digitChars sig ≠ [] := by
    intro h
    rw [h, List.length_nil] at hlen
    have := (decimalLength_bounds hsig).2
    rw [← hlen, pow_zero] at this
    omega
  unfold positional
  split_ifs with h₁ h₂
  · refine ⟨sig, -(((-point).toNat + decimalLength sig : Nat) : Int), ?_, hsig, ?_⟩
    · have hr := readNumber_point (a := ['0']) (b := List.replicate (-point).toNat '0' ++ digitChars sig)
        (zeros_isDigit 1) (by simp) (by
          intro c hc
          rcases List.mem_append.1 hc with hc | hc
          · exact zeros_isDigit _ c hc
          · exact hds c hc)
      have hlist : ("0." ++ zeros (-point).toNat ++ String.ofList (digitChars sig)).toList =
          ['0'] ++ '.' :: (List.replicate (-point).toNat '0' ++ digitChars sig) := by
        simp [zeros]
      rw [hlist, hr, digitValue_append, digitValue_zeros, show digitValue ['0'] 0 = 0 from rfl,
        Nat.zero_mul, hval, List.length_append, List.length_replicate, hlen]
    · rw [show -(((-point).toNat + decimalLength sig : Nat) : Int) = point - decimalLength sig by
        omega]
  · have hp : (point.toNat) < (digitChars sig).length := by omega
    refine ⟨sig, -((digitChars sig).length - point.toNat : Nat), ?_, hsig, ?_⟩
    · have hr := readNumber_point (a := (digitChars sig).take point.toNat)
        (b := (digitChars sig).drop point.toNat)
        (fun c hc => hds c (List.mem_of_mem_take hc)) (by simp [hne]; omega)
        (fun c hc => hds c (List.mem_of_mem_drop hc))
      have hlist : (String.ofList ((digitChars sig).take point.toNat) ++ "." ++
          String.ofList ((digitChars sig).drop point.toNat)).toList =
          (digitChars sig).take point.toNat ++ '.' :: (digitChars sig).drop point.toNat := by
        simp
      rw [hlist, hr, ← digitValue_append, List.take_append_drop, hval, List.length_drop]
    · rw [show -(((digitChars sig).length - point.toNat : Nat) : Int) =
        point - decimalLength sig by omega]
  · refine ⟨sig * 10 ^ (point.toNat - decimalLength sig), 0, ?_, by positivity, ?_⟩
    · have hr := readNumber_integer (a := digitChars sig ++ List.replicate
          (point.toNat - (digitChars sig).length) '0') (by
          intro c hc
          rcases List.mem_append.1 hc with hc | hc
          · exact hds c hc
          · exact zeros_isDigit _ c hc) (by simp [hne])
      have hlist : (String.ofList (digitChars sig) ++ zeros (point.toNat - (digitChars sig).length)).toList =
          digitChars sig ++ List.replicate (point.toNat - (digitChars sig).length) '0' := by
        simp [zeros]
      rw [hlist, hr, digitValue_append, digitValue_zeros, hval, hlen]
    · have hz : ((point.toNat - decimalLength sig : Nat) : Int) = point - decimalLength sig := by
        rw [← hlen]
        omega
      rw [zpow_zero, mul_one, ← hz, zpow_natCast]
      push_cast
      rfl

end Layouts

/-! ## Signs -/

theorem readNumber_sign {c : Char} (hc : c = '-' ∨ c = '+') (cs : List Char) :
    readNumber (c :: cs) = none := by
  rcases hc with rfl | rfl <;> simp [readNumber, readDigits]

theorem readNumber_nil : readNumber [] = none := rfl

theorem readLiteral_signed (neg : Bool) (body : String) {v : Nat} {k : Int}
    (h : readNumber body.toList = some (v, k)) :
    readLiteral (if neg then "-" ++ body else body) = some (.number ⟨neg, v, k⟩) := by
  have hne : body.toList ≠ [] := fun h0 => by rw [h0, readNumber_nil] at h; cases h
  unfold readLiteral
  cases neg
  · simp only [Bool.false_eq_true, if_false]
    split
    · rename_i r hr
      rw [hr, readNumber_sign (.inl rfl)] at h
      cases h
    · rename_i r hr
      rw [hr, readNumber_sign (.inr rfl)] at h
      cases h
    · simp [hne, h]
  · simp [h, hne]

/-! ## Rounding a printed numeral -/

section Rounding

variable {m : Nat} {e : Int}

theorem InRounding.range {r : ℚ} (hc : Canonical m e) (hm : 0 < m) (hw : InRounding m e r) :
    (2 : ℚ) ^ (-150 : Int) ≤ r ∧ r ≤ 2 ^ (128 : Int) := by
  obtain ⟨hmlt, he, he', -⟩ := hc
  rw [inRounding_iff] at hw
  have hpos : (0 : ℚ) < 2 ^ (e - 2) := zpow_pos two_pos _
  have hlo : (2 : ℚ) ≤ ((if m = 2 ^ 23 ∧ -149 < e then 4 * m - 1 else 4 * m - 2 : Nat) : ℚ) := by
    exact_mod_cast (show 2 ≤ (if m = 2 ^ 23 ∧ -149 < e then 4 * m - 1 else 4 * m - 2) by
      split_ifs <;> omega)
  have hhi : ((4 * m + 2 : Nat) : ℚ) ≤ 2 ^ (26 : Int) := by
    rw [zpow_ofNat]
    exact_mod_cast (show 4 * m + 2 ≤ 2 ^ 26 by omega)
  constructor
  · calc (2 : ℚ) ^ (-150 : Int) = 2 * 2 ^ (-151 : Int) := by norm_num
      _ ≤ 2 * 2 ^ (e - 2) := by gcongr <;> [norm_num; omega]
      _ ≤ _ * 2 ^ (e - 2) := by gcongr
      _ ≤ r := (le_div_iff₀ hpos).1 hw.lo_le
  · calc r = r / 2 ^ (e - 2) * 2 ^ (e - 2) := by field_simp
      _ ≤ ((4 * m + 2 : Nat) : ℚ) * 2 ^ (e - 2) := by gcongr; exact hw.le_hi
      _ ≤ 2 ^ (26 : Int) * 2 ^ (102 : Int) := by gcongr <;> [norm_num; omega]
      _ = 2 ^ (128 : Int) := by norm_num

theorem magnitude_within_guards {v : Nat} {k : Int} (hv : 0 < v)
    (hlo : (2 : ℚ) ^ (-150 : Int) ≤ v * 10 ^ k) (hhi : (v : ℚ) * 10 ^ k ≤ 2 ^ (128 : Int)) :
    -52 ≤ (decimalLength v : Int) + k ∧ (decimalLength v : Int) + k ≤ 44 := by
  obtain ⟨h₁, h₂⟩ := decimalLength_bounds hv
  set L := decimalLength v
  have hL : 1 ≤ L := by
    by_contra h0
    rw [show L = 0 by omega, pow_zero] at h₂
    omega
  have hlow : (10 : ℚ) ^ ((L : Int) - 1 + k) ≤ v * 10 ^ k := by
    rw [zpow_add₀ (by norm_num), show (L : Int) - 1 = ((L - 1 : Nat) : Int) by omega, zpow_natCast]
    gcongr
    exact_mod_cast h₁
  have hhigh : (v : ℚ) * 10 ^ k < 10 ^ ((L : Int) + k) := by
    rw [zpow_add₀ (by norm_num), zpow_natCast]
    gcongr
    exact_mod_cast h₂
  constructor
  · by_contra hcon
    have h₃ : (10 : ℚ) ^ ((L : Int) + k) ≤ 10 ^ (-53 : Int) := zpow_le_zpow_right₀ (by norm_num) (by omega)
    have h₄ : (10 : ℚ) ^ (-53 : Int) < 2 ^ (-150 : Int) := by norm_num
    linarith
  · by_contra hcon
    have h₃ : (10 : ℚ) ^ (44 : Int) ≤ 10 ^ ((L : Int) - 1 + k) := zpow_le_zpow_right₀ (by norm_num) (by omega)
    have h₄ : (2 : ℚ) ^ (128 : Int) < 10 ^ (44 : Int) := by norm_num
    linarith

/-- A positive numeral in the rounding interval of a positive single `m·2^e` passes the
reader's guards and rounds to that single. -/
theorem roundTo_of_inRounding (neg : Bool) (hc : Canonical m e) (hm : 0 < m) {v : Nat} {k : Int}
    (hv : 0 < v) (hw : InRounding m e (v * 10 ^ k)) :
    Decimal.roundTo single ⟨neg, v, k⟩ = single.pack neg m e := by
  obtain ⟨hlo, hhi⟩ := InRounding.range hc hm hw
  obtain ⟨g₁, g₂⟩ := magnitude_within_guards hv hlo hhi
  have ho : single.overflowDigits = 44 := rfl
  have hu : single.underflowDigits = 52 := rfl
  unfold Decimal.roundTo
  dsimp only
  rw [if_neg hv.ne', ho, hu, if_neg (by omega), if_neg (by omega)]
  split_ifs with hk
  · apply roundRat_of_inRounding neg hc hm (by rw [Nat.pow_eq]; positivity) one_pos
    rw [Nat.pow_eq]
    push_cast
    rw [div_one, ← zpow_natCast, Int.toNat_of_nonneg hk]
    exact hw
  · apply roundRat_of_inRounding neg hc hm hv (by rw [Nat.pow_eq]; positivity)
    rw [Nat.pow_eq]
    push_cast
    rw [← zpow_natCast, Int.toNat_of_nonneg (by omega), zpow_neg, div_inv_eq_mul]
    exact hw

end Rounding

/-! ## Singles are determined by their reading -/

theorem singleOfBits_eq_of_decode {n : Nat} (hn : n < 2 ^ 32) {x : Float32}
    (h : single.decode n = decodeSingle x) : singleOfBits n = x :=
  decodeSingle_injective (by rw [decodeSingle_singleOfBits hn, h])

/-! ## Reading `display` back -/

section Display

variable {neg : Bool} {m : Nat} {e : Int}

theorem canonical_zero : Canonical 0 (-149) := ⟨by norm_num, le_rfl, by norm_num, .inr rfl⟩

theorem readSingle_display_zero {x : Float32} (hx : decodeSingle x = .finite neg 0 e) :
    readSingle (display x) = some x := by
  have he : e = -149 := by
    obtain ⟨-, -, -, h | h⟩ := canonical_of_decode hx
    · omega
    · exact h
  subst he
  unfold display readSingle
  rw [hx]
  simp only [displayDecoded, ↓reduceIte]
  rw [readLiteral_signed neg "0" (show readNumber "0".toList = some (0, 0) from rfl),
    Option.map_some]
  congr 1
  apply singleOfBits_eq_of_decode (pack_lt_single neg canonical_zero)
  rw [decode_pack_single neg canonical_zero, hx]

theorem readSingle_display_pos {x : Float32} (hx : decodeSingle x = .finite neg m e) (hm : 0 < m) :
    readSingle (display x) = some x := by
  have hc := canonical_of_decode hx
  obtain ⟨hsig, hw⟩ := shortest_inRounding hc hm
  obtain ⟨v, k, hr, hv, hval⟩ := readNumber_positional hsig
    ((decimalLength (shortest single m e).sig : Int) + (shortest single m e).exp10)
  rw [add_sub_cancel_left] at hval
  unfold display readSingle
  rw [hx]
  simp only [displayDecoded, if_neg hm.ne', pointDigits, length_digitChars]
  rw [readLiteral_signed neg _ hr, Option.map_some]
  congr 1
  rw [Literal.roundTo, roundTo_of_inRounding neg hc hm hv (by rw [hval]; exact hw)]
  apply singleOfBits_eq_of_decode (pack_lt_single neg hc)
  rw [decode_pack_single neg hc, hx]

theorem readSingle_display (x : Float32) : readSingle (display x) = some x := by
  rcases hx : decodeSingle x with _ | neg | ⟨neg, m, e⟩
  · unfold display readSingle
    rw [hx, displayDecoded, show readLiteral "NaN" = some (.nan false) by decide, Option.map_some]
    congr 1
    exact singleOfBits_eq_of_decode (by decide) (by rw [hx]; decide)
  · unfold display readSingle
    rw [hx, displayDecoded]
    cases neg
    · rw [if_neg (by decide), show readLiteral "inf" = some (.infinity false) by decide,
        Option.map_some]
      congr 1
      exact singleOfBits_eq_of_decode (by decide) (by rw [hx]; decide)
    · rw [if_pos rfl, show readLiteral "-inf" = some (.infinity true) by decide, Option.map_some]
      congr 1
      exact singleOfBits_eq_of_decode (by decide) (by rw [hx]; decide)
  · rcases Nat.eq_zero_or_pos m with rfl | hm
    · exact readSingle_display_zero hx
    · exact readSingle_display_pos hx hm

end Display

/-! ## The surface reader -/

section Surface

open PointerAccel.Text

theorem plain_char {c : Char} (h : c.isDigit = true ∨ c = '-' ∨ c = '.') :
    isUnicodeSpace c = false ∧ c ≠ 'f' ∧ c ≠ 'F' := by
  rcases h with h | rfl | rfl
  · have hd := h
    simp only [Char.isDigit, Bool.and_eq_true, decide_eq_true_eq] at h
    obtain ⟨h₁, h₂⟩ := h
    rw [ge_iff_le, UInt32.le_iff_toNat_le] at h₁
    rw [UInt32.le_iff_toNat_le] at h₂
    refine ⟨?_, ?_, ?_⟩
    rotate_left
    · rintro rfl
      exact absurd hd (by decide)
    · rintro rfl
      exact absurd hd (by decide)
    unfold isUnicodeSpace
    simp only [Bool.or_eq_false_iff, beq_eq_false_iff_ne, decide_eq_false_iff_not]
    change 48 ≤ c.toNat at h₁
    change c.toNat ≤ 57 at h₂
    omega
  · decide
  · decide

theorem dropWhile_of_forall {p : Char → Bool} {l : List Char} (h : ∀ c ∈ l, p c = false) :
    l.dropWhile p = l := by
  cases l with
  | nil => rfl
  | cons c cs => rw [List.dropWhile_cons_of_neg (by simp [h c List.mem_cons_self])]

theorem trimSpace_of_forall {s : String} (h : ∀ c ∈ s.toList, isUnicodeSpace c = false) :
    trimSpace s = s := by
  unfold trimSpace
  rw [dropWhile_of_forall h, dropWhile_of_forall fun c hc => h c (List.mem_reverse.1 hc),
    List.reverse_reverse, String.ofList_toList]

theorem stripFloatSuffix_of_forall {s : String} (h : ∀ c ∈ s.toList, c ≠ 'f' ∧ c ≠ 'F') :
    stripFloatSuffix s = s := by
  unfold stripFloatSuffix
  split
  · rename_i rest hr
    have hf : 'f' ∈ s.toList := by rw [← List.mem_reverse, hr]; exact List.mem_cons_self
    exact absurd rfl (h _ hf).1
  · rename_i rest hr
    have hf : 'F' ∈ s.toList := by rw [← List.mem_reverse, hr]; exact List.mem_cons_self
    exact absurd rfl (h _ hf).2
  · rfl

theorem readParamFloat_of_stable {s : String} (ht : trimSpace s = s) (hs : stripFloatSuffix s = s) :
    readParamFloat s = readSingle s := by
  simp only [readParamFloat, ht, hs, ite_self]

theorem readParamFloat_of_word {s : String} (ht : trimSpace s = s)
    (hw : endsLikeWord (stripFloatSuffix s) = true) : readParamFloat s = readSingle s := by
  simp only [readParamFloat, ht, hw, if_true]

theorem positional_chars {ds : List Char} (hds : ∀ c ∈ ds, c.isDigit = true) (point : Int) :
    ∀ c ∈ (positional ds point).toList, c.isDigit = true ∨ c = '.' := by
  have hz : ∀ z, ∀ c ∈ List.replicate z '0', c.isDigit = true ∨ c = '.' :=
    fun z c hc => .inl (zeros_isDigit z c hc)
  unfold positional
  split_ifs <;> intro c hc <;>
    simp only [String.toList_append, String.toList_ofList, zeros, List.mem_append] at hc
  · rcases hc with (hc | hc) | hc
    · rw [show ("0." : String).toList = ['0', '.'] by rfl] at hc
      rcases List.mem_pair.1 hc with rfl | rfl
      · exact .inl rfl
      · exact .inr rfl
    · exact hz _ c hc
    · exact .inl (hds c hc)
  · rcases hc with (hc | hc) | hc
    · exact .inl (hds c (List.mem_of_mem_take hc))
    · rw [show ("." : String).toList = ['.'] by rfl, List.mem_singleton] at hc
      exact .inr hc
    · exact .inl (hds c (List.mem_of_mem_drop hc))
  · rcases hc with hc | hc
    · exact .inl (hds c hc)
    · exact hz _ c hc

theorem display_chars_of_finite {x : Float32} {neg : Bool} {m : Nat} {e : Int}
    (hx : decodeSingle x = .finite neg m e) :
    ∀ c ∈ (display x).toList, c.isDigit = true ∨ c = '-' ∨ c = '.' := by
  have hbody : ∀ c ∈ (if m = 0 then "0" else
      positional (pointDigits single m e).1 (pointDigits single m e).2).toList,
      c.isDigit = true ∨ c = '-' ∨ c = '.' := by
    intro c hc
    split_ifs at hc
    · rw [show ("0" : String).toList = ['0'] by rfl, List.mem_singleton] at hc
      exact .inl (by rw [hc]; rfl)
    · rcases positional_chars (digitChars_isDigit _) _ c hc with h | h
      · exact .inl h
      · exact .inr (.inr h)
  unfold display
  rw [hx]
  simp only [displayDecoded]
  intro c hc
  cases neg
  · rw [if_neg (by decide)] at hc
    exact hbody c hc
  · rw [if_pos rfl, String.toList_append, List.mem_append] at hc
    rcases hc with hc | hc
    · rw [show ("-" : String).toList = ['-'] by rfl, List.mem_singleton] at hc
      exact .inr (.inl hc)
    · exact hbody c hc

theorem readParamFloat_display (x : Float32) : readParamFloat (display x) = some x := by
  rw [← readSingle_display x]
  rcases hx : decodeSingle x with _ | neg | ⟨neg, m, e⟩
  · rw [display, hx, displayDecoded]
    exact readParamFloat_of_stable (by decide) (by decide)
  · rw [display, hx, displayDecoded]
    cases neg
    · exact readParamFloat_of_word (by decide) (by decide)
    · exact readParamFloat_of_word (by decide) (by decide)
  · have hplain := fun c hc => plain_char (display_chars_of_finite hx c hc)
    exact readParamFloat_of_stable (trimSpace_of_forall fun c hc => (hplain c hc).1)
      (stripFloatSuffix_of_forall fun c hc => (hplain c hc).2)

end Surface

end PointerAccel.Binary

namespace PointerAccel

open PointerAccel.Binary

theorem AccelMode.ofCode_code (mode : AccelMode) : AccelMode.ofCode mode.code = mode := by
  cases mode <;> rfl

theorem ParamSet.ext_get {p q : ParamSet} (h : ∀ n, p.get n = q.get n) (hm : p.mode = q.mode) :
    p = q := by
  obtain ⟨a₁, a₂, a₃, a₄, a₅, a₆, a₇, a₈, mode⟩ := p
  obtain ⟨b₁, b₂, b₃, b₄, b₅, b₆, b₇, b₈, mode'⟩ := q
  have h₁ := h .speedCap
  have h₂ := h .sensitivity
  have h₃ := h .acceleration
  have h₄ := h .sensitivityCap
  have h₅ := h .offset
  have h₆ := h .exponent
  have h₇ := h .midpoint
  have h₈ := h .scrollsPerTick
  simp only [ParamSet.get] at h₁ h₂ h₃ h₄ h₅ h₆ h₇ h₈ hm
  subst h₁ h₂ h₃ h₄ h₅ h₆ h₇ h₈ hm
  rfl

/-- The printed surface of a parameter set, once a reload is requested and the debounce
window has passed, is applied exactly: the poll applies, no field is rejected, and the live
set becomes that set, every field (NaN, signed zeros, subnormals and infinities included)
and the mode. -/
theorem printed_surface_reloads_exactly (p live : ParamSet) (st : ReloadState) (now : UInt64)
    (hnow : st.nextAllowedNs ≤ now) :
    (maybeReload (Surface.ofParams p).requestReload st now live).outcome = .applied ∧
      (maybeReload (Surface.ofParams p).requestReload st now live).state.rejected = [] ∧
      (maybeReload (Surface.ofParams p).requestReload st now live).live = p := by
  have hread : ∀ n, readParamFloat ((Surface.ofParams p).requestReload.text n) = some (p.get n) :=
    fun n => readParamFloat_display (p.get n)
  have hn : ¬ now < st.nextAllowedNs := by
    rw [UInt64.lt_iff_toNat_lt]
    rw [UInt64.le_iff_toNat_le] at hnow
    omega
  rw [maybeReload, pollReload_applied live rfl hn]
  refine ⟨rfl, ?_, ?_⟩
  · rw [Surface.rejected_parseOnto]
    simp [hread]
  · apply ParamSet.ext_get
    · intro n
      rw [Surface.get_parseOnto, hread]
      rfl
    · rw [Surface.mode_parseOnto]
      exact AccelMode.ofCode_code p.mode

/-- A set holding a NaN, a negative zero, the smallest subnormal, an infinity and a value
printed with twenty digits reloads exactly. -/
theorem extreme_set_reloads_exactly :
    let p : ParamSet := { ParamSet.default with
      speedCap := singleOfBits 1, sensitivity := -0.0, acceleration := 1e20,
      sensitivityCap := singleInf, offset := 0.0 / 0.0, mode := .motivity }
    (5 : UInt64) ≤ 7 ∧
      (maybeReload (Surface.ofParams p).requestReload ⟨5, [.midpoint]⟩ 7 ParamSet.default).outcome =
        .applied ∧
      (maybeReload (Surface.ofParams p).requestReload ⟨5, [.midpoint]⟩ 7 ParamSet.default).state.rejected =
        [] ∧
      (maybeReload (Surface.ofParams p).requestReload ⟨5, [.midpoint]⟩ 7 ParamSet.default).live = p :=
  ⟨by decide, printed_surface_reloads_exactly _ _ ⟨5, [.midpoint]⟩ 7 (by decide)⟩

end PointerAccel
