import Mathlib
import PointerAccel.Proofs.Nearest.Decode
import PointerAccel.Proofs.Single.Integer

/-!
# The deltas a single holds

Pre-validation converts each 32-bit delta to the nearest single and truncates it back through a
64-bit integer. The round trip gives the delta back exactly when some finite single has the
delta's value: zero, or an integer whose odd part (what is left once every factor of two is
divided out) is below `2^24`. So `-2^31` passes and `2^31 - 1` fails, although the first is
the larger in magnitude.

* `RoundsTo.eq_of_mul_two_pow`: a whole number `o·2^k` whose odd factor `o` has no more bits
  than a significand rounds to itself;
* `truncInt_eq_of_toRat`: a decoded value that is an integer truncates to that integer;
* `roundTrips_iff_representable`, `roundTrips_iff_oddPart`: a 32-bit delta survives the round
  trip iff a finite single has its value, iff its odd part is below `2^24`;
* `float_round_trip_decides_exactness`: the above for every 32-bit delta, with its extreme
  cases, and the sample check as the check of each of its three deltas.
-/

namespace PointerAccel.Binary

open BinaryFormat

section RoundsTo

variable {f : BinaryFormat} {v w : ℚ}

/-- A whole number `o·2^k` whose odd factor has no more bits than a significand rounds to
itself. -/
theorem RoundsTo.eq_of_mul_two_pow (h : RoundsTo f v w) (hmin : f.minExp ≤ 0) {o k : Nat}
    (hv : v = o * 2 ^ k) (ho : o < 2 ^ (f.fracBits + 1)) : w = v := by
  obtain ⟨B, n, ⟨hlo, -⟩, hn, rfl⟩ := h
  set t := max B f.minExp
  have hB : B ≤ k := by
    have hv' : v < 2 ^ ((f.fracBits : Int) + 1 + k) := by
      have ho' : (o : ℚ) < 2 ^ ((f.fracBits : Int) + 1) := by
        rw [show (f.fracBits : Int) + 1 = ((f.fracBits + 1 : Nat) : Int) by push_cast; rfl,
          zpow_natCast]
        exact_mod_cast ho
      rw [hv, zpow_add₀ two_ne_zero, zpow_natCast]
      exact mul_lt_mul_of_pos_right ho' (pow_pos two_pos k)
    have := two_zpow_lt_two_zpow (lt_of_le_of_lt hlo hv')
    omega
  have ht : t ≤ k := max_le hB (by omega)
  have hK : v / 2 ^ t = ((o * 2 ^ ((k : Int) - t).toNat : Nat) : ℚ) := by
    rw [hv, Nat.cast_mul, Nat.cast_pow, Nat.cast_ofNat, ← zpow_natCast (2 : ℚ) ((k : Int) - t).toNat,
      Int.toNat_of_nonneg (by omega), zpow_sub₀ two_ne_zero, zpow_natCast, mul_div_assoc]
  rw [hK] at hn
  rw [hn.unique (NearestEven.self _), ← hK, div_mul_cancel₀ _ (zpow_ne_zero _ two_ne_zero)]

end RoundsTo

/-! ## Integers in and out of a single -/

theorem natAbs_of_toRat {neg : Bool} {m : Nat} {e : Int} {z : Int}
    (h : (Decoded.finite neg m e).toRat = z) : (z.natAbs : ℚ) = m * 2 ^ e := by
  rw [Nat.cast_natAbs, Int.cast_abs, ← h, toRat_finite, abs_mul,
    abs_of_pos (show (0 : ℚ) < 2 ^ e from zpow_pos two_pos e)]
  cases neg <;> simp

theorem truncMag_eq {m : Nat} {e : Int} {a : Nat} (h : (m : ℚ) * 2 ^ e = a) :
    (if 0 ≤ e then m * Nat.pow 2 e.toNat else m / Nat.pow 2 (-e).toNat) = a := by
  split_ifs with he
  · have hc : ((m * Nat.pow 2 e.toNat : Nat) : ℚ) = a := by
      rw [← h, Nat.pow_eq, Nat.cast_mul, Nat.cast_pow, Nat.cast_ofNat, ← zpow_natCast,
        Int.toNat_of_nonneg he]
    exact_mod_cast hc
  · have hc : ((a * Nat.pow 2 (-e).toNat : Nat) : ℚ) = m := by
      rw [Nat.cast_mul, ← h, Nat.pow_eq, Nat.cast_pow, Nat.cast_ofNat, ← zpow_natCast,
        Int.toNat_of_nonneg (by omega), mul_assoc, ← zpow_add₀ two_ne_zero, add_neg_cancel,
        zpow_zero, mul_one]
    have hm : m = a * Nat.pow 2 (-e).toNat := by exact_mod_cast hc.symm
    rw [hm, Nat.mul_div_cancel _ (by rw [Nat.pow_eq]; exact Nat.two_pow_pos _)]

theorem truncInt_eq_of_toRat {neg : Bool} {m : Nat} {e : Int} {z : Int}
    (h : (Decoded.finite neg m e).toRat = z) : (Decoded.finite neg m e).truncInt = z := by
  have hmag := truncMag_eq (natAbs_of_toRat h).symm
  have hnn : (0 : ℚ) ≤ m * 2 ^ e := mul_nonneg (Nat.cast_nonneg m) (zpow_nonneg two_pos.le e)
  rw [toRat_finite] at h
  simp only [Decoded.truncInt, hmag]
  cases neg
  · have hz : (0 : ℚ) ≤ z := by simpa [← h] using hnn
    simp only [Bool.false_eq_true, if_false]
    have : 0 ≤ z := by exact_mod_cast hz
    omega
  · have hz : (z : ℚ) ≤ 0 := by
      rw [← h, if_pos rfl, neg_mul]
      exact neg_nonpos.2 hnn
    simp only [if_true]
    have : z ≤ 0 := by exact_mod_cast hz
    omega

theorem decodeSingle_singleOfInt {z : Int} (hz : z ≠ 0) (hb : z.natAbs ≤ 2 ^ 31) :
    ∃ m q, decodeSingle (singleOfInt z) = .finite (decide (z < 0)) m q ∧
      RoundsTo single z.natAbs (m * 2 ^ q) := by
  have hv : ((z.natAbs : ℚ) / (1 : Nat)) = z.natAbs := by rw [Nat.cast_one, div_one]
  have hb' : z.natAbs < 2 ^ 32 := by omega
  obtain ⟨m, q, hr, hc, hround⟩ := roundRat_fits_of_lt formatMatch_single.wide (decide (z < 0))
    (Int.natAbs_pos.2 hz) Nat.one_pos (X := 32) (by rw [hv]; exact_mod_cast hb') (by decide)
  rw [hv] at hround
  have hlt : single.pack (decide (z < 0)) m q < 2 ^ 32 := by
    have h32 : 2 * single.signBit = 2 ^ 32 := by decide
    exact h32 ▸ pack_lt formatMatch_single.wide _ hc
  refine ⟨m, q, ?_, hround⟩
  rw [singleOfInt_eq, hr, decodeSingle_singleOfBits hlt, decode_pack formatMatch_single.wide _ hc]

/-! ## The round trip of a delta -/

theorem oddPart_lt_of_singleRat {x : Float32} (hx : x.isFinite = true) {z : Int}
    (h : singleRat x = z) : z = 0 ∨ ordCompl[2] z.natAbs < 2 ^ 24 := by
  obtain ⟨neg, m, e, hd⟩ := (isFinite_iff_decodeSingle x).1 hx
  have hc := canonical_of_decode hd
  rw [singleRat, hd] at h
  have hmag := natAbs_of_toRat h
  right
  by_cases he : 0 ≤ e
  · have hz : ((z.natAbs : Nat) : ℚ) = ((2 ^ e.toNat * m : Nat) : ℚ) := by
      rw [hmag, Nat.cast_mul, Nat.cast_pow, Nat.cast_ofNat, ← zpow_natCast,
        Int.toNat_of_nonneg he, mul_comm]
    rw [show z.natAbs = 2 ^ e.toNat * m by exact_mod_cast hz,
      Nat.ordCompl_self_pow_mul _ _ Nat.prime_two]
    exact lt_of_le_of_lt (Nat.ordCompl_le _ _) hc.1
  · have hm : ((m : Nat) : ℚ) = ((2 ^ (-e).toNat * z.natAbs : Nat) : ℚ) := by
      rw [Nat.cast_mul, hmag, Nat.cast_pow, Nat.cast_ofNat, ← zpow_natCast,
        Int.toNat_of_nonneg (by omega), mul_comm, mul_assoc, ← zpow_add₀ two_ne_zero,
        add_neg_cancel, zpow_zero, mul_one]
    rw [← Nat.ordCompl_self_pow_mul z.natAbs (-e).toNat Nat.prime_two,
      show 2 ^ (-e).toNat * z.natAbs = m by exact_mod_cast hm.symm]
    exact lt_of_le_of_lt (Nat.ordCompl_le _ _) hc.1

theorem roundTrips_of_oddPart {z : Int} (hb : z.natAbs ≤ 2 ^ 31)
    (h : z = 0 ∨ ordCompl[2] z.natAbs < 2 ^ 24) : RawSample.roundTrips z = true := by
  rcases eq_or_ne z 0 with rfl | hz
  · decide
  obtain ⟨m, q, hd, hr⟩ := decodeSingle_singleOfInt hz hb
  have hsplit : (z.natAbs : ℚ) = (ordCompl[2] z.natAbs : Nat) * 2 ^ (z.natAbs.factorization 2) := by
    rw [mul_comm]
    exact_mod_cast (Nat.ordProj_mul_ordCompl_eq_self z.natAbs 2).symm
  have hw := hr.eq_of_mul_two_pow (by decide) hsplit (h.resolve_left hz)
  have hval : (Decoded.finite (decide (z < 0)) m q).toRat = z := by
    rw [toRat_finite, ← signed_natAbs_rat z, ← hw]
    split <;> ring
  rw [RawSample.roundTrips, hd, truncInt_eq_of_toRat hval, beq_self_eq_true]

theorem roundTrips_iff_representable {z : Int} (hb : z.natAbs ≤ 2 ^ 31) :
    RawSample.roundTrips z = true ↔ ∃ x : Float32, x.isFinite = true ∧ singleRat x = z := by
  constructor
  · intro h
    obtain ⟨hv, hf⟩ := singleRat_singleOfInt h
    exact ⟨singleOfInt z, hf, hv⟩
  · rintro ⟨x, hx, hv⟩
    exact roundTrips_of_oddPart hb (oddPart_lt_of_singleRat hx hv)

theorem roundTrips_iff_oddPart {z : Int} (hb : z.natAbs ≤ 2 ^ 31) :
    RawSample.roundTrips z = true ↔ z = 0 ∨ ordCompl[2] z.natAbs < 2 ^ 24 := by
  refine ⟨fun h => ?_, roundTrips_of_oddPart hb⟩
  obtain ⟨hv, hf⟩ := singleRat_singleOfInt h
  exact oddPart_lt_of_singleRat hf hv

theorem natAbs_toInt_le (v : Int32) : v.toInt.natAbs ≤ 2 ^ 31 := by
  have hlo := Int32.le_toInt v
  have hhi := Int32.toInt_lt v
  omega

theorem isFloatExact_iff (s : RawSample) :
    s.isFloatExact = true ↔ RawSample.roundTrips s.dx.toInt = true ∧
      RawSample.roundTrips s.dy.toInt = true ∧ RawSample.roundTrips s.dwheel.toInt = true := by
  simp [RawSample.isFloatExact, RawSample.fields]

/-- Pre-validation decides exact representability: for every 32-bit delta the round trip
through single precision succeeds iff a finite single has the delta's value, iff the delta is
zero or its odd part is below `2^24`. So `-2^31` and every delta up to `2^24` in magnitude
pass, `2^31 - 1` fails, and a sample passes iff each of its deltas does. -/
theorem float_round_trip_decides_exactness :
    (∀ v : Int32,
      (RawSample.roundTrips v.toInt = true ↔
          ∃ x : Float32, x.isFinite = true ∧ singleRat x = v.toInt) ∧
        (RawSample.roundTrips v.toInt = true ↔
          v.toInt = 0 ∨ ordCompl[2] v.toInt.natAbs < 2 ^ 24)) ∧
      RawSample.roundTrips Int32.minValue.toInt = true ∧
      (∀ v : Int32, v.toInt.natAbs ≤ 2 ^ 24 → RawSample.roundTrips v.toInt = true) ∧
      RawSample.roundTrips Int32.maxValue.toInt = false ∧
      ∀ s : RawSample, s.isFloatExact = true ↔ RawSample.roundTrips s.dx.toInt = true ∧
        RawSample.roundTrips s.dy.toInt = true ∧ RawSample.roundTrips s.dwheel.toInt = true := by
  refine ⟨fun v => ⟨roundTrips_iff_representable (natAbs_toInt_le v),
    roundTrips_iff_oddPart (natAbs_toInt_le v)⟩, ?_, fun v hv => ?_, ?_, isFloatExact_iff⟩
  · apply roundTrips_of_oddPart (by decide)
    right
    rw [show Int32.minValue.toInt.natAbs = 2 ^ 31 by decide,
      Nat.ordCompl_self_pow Nat.prime_two]
    norm_num
  · apply roundTrips_of_oddPart (natAbs_toInt_le v)
    right
    rcases Nat.lt_or_eq_of_le hv with hlt | heq
    · exact lt_of_le_of_lt (Nat.ordCompl_le _ _) hlt
    · rw [heq, Nat.ordCompl_self_pow Nat.prime_two]
      norm_num
  · have hodd : ordCompl[2] Int32.maxValue.toInt.natAbs = 2 ^ 31 - 1 := by
      rw [show Int32.maxValue.toInt.natAbs = 2 ^ 31 - 1 by decide]
      exact (Nat.ordCompl_eq_self_iff_zero_or_not_dvd _ Nat.prime_two).2 (.inr (by decide))
    rw [← Bool.not_eq_true, roundTrips_iff_oddPart (natAbs_toInt_le Int32.maxValue), hodd]
    decide

theorem largest_exact_delta_round_trips :
    (16777216 : Int32).toInt.natAbs ≤ 2 ^ 24 ∧ RawSample.roundTrips (16777216 : Int32).toInt = true :=
  ⟨by decide, float_round_trip_decides_exactness.2.2.1 _ (by decide)⟩

end PointerAccel.Binary
