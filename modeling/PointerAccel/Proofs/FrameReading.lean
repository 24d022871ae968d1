import Mathlib
import PointerAccel.Proofs.Nearest.Decode
import PointerAccel.Proofs.FrameTime
import PointerAccel.Proofs.Single.Sign

/-!
# What the frame timer reads

The timer turns a gap of `n` nanoseconds into milliseconds as
`narrow (doubleOfInt n / 1000000.0)`: three roundings to nearest, of `n` to a double, of the
quotient by a million to a double, and of that to a single. Followed through the model's
division and conversions, the reading is below one millisecond exactly when the gap is below a
million nanoseconds, whatever the gap up to `2^64`, so the timer's test against its minimum
frame time is a test on the gap itself.

* `frameReading_rounds`: the reading is finite, and its value is the three roundings;
* `frameReading_lt_min_iff`: the reading is below the minimum frame time iff `n < 1000000`;
* `FrameTimer.elapsed_readsGap`: what one reading of the clock does to any timer;
* `FrameTimer.reading_after_timestamps`: for every call of any sequence of timestamps fed to
  a fresh timer, that and a report in `[1, 100]`.
-/

namespace PointerAccel.Binary

open Float.Model Float.Model.UnpackedFloat BinaryFormat

theorem doubleOfBits_pack (neg : Bool) {m : Nat} {q : Int} (hm : 0 < m) (hc : double.Fits m q) :
    bitsOf64 (doubleOfBits (double.pack neg m q)) = double.pack neg m q ∧
      ∃ s hp, signNeg s = neg ∧
        (doubleOfBits (double.pack neg m q)).toModel.unpack = .finite s m q hp := by
  obtain ⟨b, hbdef⟩ : ∃ b, (UInt64.ofNat (double.pack neg m q)).toBitVec = b := ⟨_, rfl⟩
  have hb : b.toNat = double.pack neg m q := by
    have hlt := pack_lt formatMatch_double.wide neg hc
    have h64 : 2 * double.signBit = 2 ^ 64 := by decide
    rw [← hbdef, UInt64.toNat_toBitVec, UInt64.toNat_ofNat', Nat.mod_eq_of_lt (h64 ▸ hlt)]
  obtain ⟨s, hp, hs, hu, hpk⟩ := unpack_of_fits formatMatch_double b hm hc hb
  have hmodel : (doubleOfBits (double.pack neg m q)).toModel.unpack =
      unpack Format.binary64 (UnpackedFloat.pack Format.binary64 (unpack Format.binary64 b)) := by
    rw [← hbdef]
    rfl
  have hbits : bitsOf64 (doubleOfBits (double.pack neg m q)) =
      (UnpackedFloat.pack Format.binary64 (unpack Format.binary64 b)).toNat := by
    rw [← hbdef]
    rfl
  exact ⟨by rw [hbits, hpk, hb], s, hp, hs, by rw [hmodel, hpk, hu]⟩

theorem doubleOfInt_rounds {n : Nat} (hn0 : 0 < n) (hn : n < 2 ^ 64) :
    ∃ m q, doubleOfInt n = doubleOfBits (double.pack false m q) ∧ 0 < m ∧ double.Fits m q ∧
      RoundsTo double n (m * 2 ^ q) := by
  have hv : ((n : ℚ) / (1 : Nat)) = n := by rw [Nat.cast_one, div_one]
  obtain ⟨m, q, hr, hc, hround⟩ := roundRat_fits_of_lt formatMatch_double.wide false hn0
    Nat.one_pos (X := 64) (by rw [hv]; exact_mod_cast hn) (by decide)
  rw [hv] at hround
  have hpos : 0 < m := by
    apply hround.mant_pos
    have h1 : (1 : ℚ) ≤ n := by exact_mod_cast hn0
    refine le_trans (zpow_le_one_of_nonpos₀ one_le_two ?_) h1
    decide
  exact ⟨m, q, by rw [← hr]; rfl, hpos, hc, hround⟩

theorem totalExponent_pos {m : Nat} {q : Int} (hm : 0 < m) (h : 1 ≤ (m : ℚ) * 2 ^ q) :
    0 < totalExponent m q := by
  have hone : (1 : ℚ) < 2 ^ ((m.log2 : Int) + 1 + q) := by
    rw [zpow_add₀ two_ne_zero]
    exact lt_of_le_of_lt h
      (mul_lt_mul_of_pos_right (two_zpow_log2_bounds hm).2 (zpow_pos two_pos _))
  exact two_zpow_lt_two_zpow (by rw [zpow_zero]; exact hone)

theorem unpack_million :
    (1000000.0 : Float).toModel.unpack = .finite .positive (1000000 * 2 ^ 33) (-33) (by decide) :=
  rfl

theorem div_million_rounds {m₁ : Nat} {q₁ : Int} (hm : 0 < m₁) (hc : double.Fits m₁ q₁)
    (hlo : 1 ≤ (m₁ : ℚ) * 2 ^ q₁) (hhi : (m₁ : ℚ) * 2 ^ q₁ ≤ 2 ^ (64 : Int)) :
    ∃ m q, bitsOf64 (doubleOfBits (double.pack false m₁ q₁) / 1000000.0) = double.pack false m q ∧
      0 < m ∧ double.Fits m q ∧ RoundsTo double (m₁ * 2 ^ q₁ / 1000000) (m * 2 ^ q) := by
  obtain ⟨-, s, hp, hs, hu⟩ := doubleOfBits_pack false hm hc
  obtain rfl : s = .positive := by cases s <;> simp_all [signNeg]
  obtain ⟨hden, hval⟩ := ratOf_spec m₁ q₁
  have hD : 0 < (ratOf m₁ q₁).2 * 1000000 := Nat.mul_pos hden (by norm_num)
  have hv : ((ratOf m₁ q₁).1 : ℚ) / ((ratOf m₁ q₁).2 * 1000000 : Nat) =
      m₁ * 2 ^ q₁ / 1000000 := by
    rw [Nat.cast_mul, ← div_div, hval]
    norm_num
  have hnormal : Format.binary64.minExponent ≤ totalExponent m₁ q₁ -
      totalExponent (1000000 * 2 ^ 33) (-33) - Format.binary64.mantissaBits := by
    have hT := totalExponent_pos hm hlo
    have hk : totalExponent (1000000 * 2 ^ 33) (-33) = 20 ∧
        Format.binary64.minExponent = -1074 ∧ Format.binary64.mantissaBits = 53 := by decide
    rw [hk.1, hk.2.1, hk.2.2]
    omega
  have hword : bitsOf64 (doubleOfBits (double.pack false m₁ q₁) / 1000000.0) =
      (UnpackedFloat.pack Format.binary64 (UnpackedFloat.div Format.binary64
        (.finite .positive m₁ q₁ hp)
        (.finite .positive (1000000 * 2 ^ 33) (-33) (by decide)))).toNat := by
    rw [← hu, ← unpack_million]
    rfl
  rw [pack_div_finite formatMatch_double .positive .positive hm (by decide) hnormal hD
    (by rw [hv]; norm_num)] at hword
  have hsmall : ((ratOf m₁ q₁).1 : ℚ) / ((ratOf m₁ q₁).2 * 1000000 : Nat) < 2 ^ (64 : Int) := by
    rw [hv, div_lt_iff₀ (by norm_num)]
    calc (m₁ : ℚ) * 2 ^ q₁ ≤ 2 ^ (64 : Int) := hhi
      _ < 2 ^ (64 : Int) * 1000000 := by norm_num
  obtain ⟨m, q, hr, hc', hround⟩ := roundRat_fits_of_lt formatMatch_double.wide false
    (ratOf_fst_pos hm q₁) hD hsmall (by decide)
  rw [hv] at hround
  have hpos : 0 < m := by
    apply hround.mant_pos
    have hd : double.minExp + double.fracBits = -1022 := by decide
    rw [hd]
    calc (2 : ℚ) ^ (-1022 : Int) ≤ 2 ^ (-20 : Int) := zpow_le_zpow_right₀ one_le_two (by norm_num)
      _ ≤ 1 / 1000000 := by norm_num
      _ ≤ m₁ * 2 ^ q₁ / 1000000 := by gcongr
  exact ⟨m, q, hword.trans hr, hpos, hc', hround⟩

theorem narrow_rounds {m₂ : Nat} {q₂ : Int} (hm : 0 < m₂) (hc : double.Fits m₂ q₂)
    (hhi : (m₂ : ℚ) * 2 ^ q₂ < 2 ^ (100 : Int)) :
    ∃ m q, single.decode (convert double single (double.pack false m₂ q₂)) = .finite false m q ∧
      RoundsTo single (m₂ * 2 ^ q₂) (m * 2 ^ q) := by
  obtain ⟨hden, hval⟩ := ratOf_spec m₂ q₂
  obtain ⟨m, q, hr, hc', hround⟩ := roundRat_fits_of_lt formatMatch_single.wide false
    (ratOf_fst_pos hm q₂) hden (X := 100) (by rwa [hval]) (by decide)
  rw [hval] at hround
  refine ⟨m, q, ?_, hround⟩
  rw [convert_of_decode (decode_pack formatMatch_double.wide false hc), hr,
    decode_pack formatMatch_single.wide false hc']

end PointerAccel.Binary

namespace PointerAccel

open PointerAccel.Binary BinaryFormat

/-- The reading of a positive gap below `2^64` is finite, and its value is the gap rounded to a
double, divided by a million and rounded to a double, then rounded to a single. -/
theorem frameReading_rounds {n : Nat} (hn0 : 0 < n) (hn : n < 2 ^ 64) :
    ∃ w₁ w₂ w₃ : ℚ, RoundsTo double n w₁ ∧ RoundsTo double (w₁ / 1000000) w₂ ∧
      RoundsTo single w₂ w₃ ∧ (narrow (doubleOfInt n / 1000000.0)).isFinite = true ∧
      singleRat (narrow (doubleOfInt n / 1000000.0)) = w₃ := by
  have h64 : (2 : ℚ) ^ (64 : Int) = ((2 ^ 64 : Nat) : ℚ) := by norm_num
  obtain ⟨m₁, q₁, hx, hm₁, hc₁, h₁⟩ := doubleOfInt_rounds hn0 hn
  have hlo : 1 ≤ (m₁ : ℚ) * 2 ^ q₁ := by
    have h := h₁.le_of_nat (by decide) (k := 1) (by exact_mod_cast hn0) (by decide)
    exact_mod_cast h
  have hhi : (m₁ : ℚ) * 2 ^ q₁ ≤ 2 ^ (64 : Int) :=
    h₁.le_two_zpow (by rw [h64]; exact_mod_cast hn) (by decide)
  obtain ⟨m₂, q₂, hy, hm₂, hc₂, h₂⟩ := div_million_rounds hm₁ hc₁ hlo hhi
  have hhi₂ : (m₂ : ℚ) * 2 ^ q₂ ≤ 2 ^ (64 : Int) := by
    refine h₂.le_two_zpow ?_ (by decide)
    rw [div_lt_iff₀ (by norm_num)]
    calc (m₁ : ℚ) * 2 ^ q₁ ≤ 2 ^ (64 : Int) := hhi
      _ < 2 ^ (64 : Int) * 1000000 := by norm_num
  obtain ⟨m₃, q₃, hz, h₃⟩ := narrow_rounds hm₂ hc₂ (lt_of_le_of_lt hhi₂ (by norm_num))
  have hdec : decodeSingle (narrow (doubleOfInt n / 1000000.0)) = .finite false m₃ q₃ := by
    rw [narrow, decodeSingle_singleOfBits_mod, hx, hy, hz]
  refine ⟨_, _, _, h₁, h₂, h₃, (isFinite_iff_decodeSingle _).2 ⟨_, _, _, hdec⟩, ?_⟩
  rw [singleRat, hdec, toRat_finite, if_neg Bool.false_ne_true]

/-- The timer's reading of a gap is below its minimum frame time exactly when the gap is below
a million nanoseconds. -/
theorem frameReading_lt_min_iff (n : Nat) (hn : n < 2 ^ 64) :
    narrow (doubleOfInt n / 1000000.0) < minFrameMs ↔ n < 1000000 := by
  rcases Nat.eq_zero_or_pos n with rfl | hn0
  · exact ⟨fun _ => by norm_num, fun _ => by decide +kernel⟩
  obtain ⟨w₁, w₂, w₃, h₁, h₂, h₃, hfin, hval⟩ := frameReading_rounds hn0 hn
  rw [lt_iff_singleRat_lt hfin posIn_minFrameMs.isFinite, singleRat_minFrameMs, hval]
  constructor
  · intro hw
    by_contra hbig
    have hw₁ : (1000000 : ℚ) ≤ w₁ := by
      have h := h₁.le_of_nat (by decide) (k := 1000000)
        (by exact_mod_cast not_lt.1 hbig) (by decide)
      exact_mod_cast h
    have hw₂ : (1 : ℚ) ≤ w₂ := by
      have h := h₂.le_of_nat (by decide) (k := 1)
        (by rw [Nat.cast_one, le_div_iff₀ (by norm_num)]; linarith) (by decide)
      exact_mod_cast h
    have hw₃ : (1 : ℚ) ≤ w₃ := by
      have h := h₃.le_of_nat (by decide) (k := 1) (by exact_mod_cast hw₂) (by decide)
      exact_mod_cast h
    linarith
  · intro hsmall
    have hn' : (n : ℚ) ≤ 999999 := by exact_mod_cast Nat.le_pred_of_lt hsmall
    have hw₁ : w₁ = n := h₁.eq_of_nat (by decide) rfl (by
      have : 2 ^ 20 ≤ 2 ^ (double.fracBits + 1) := Nat.pow_le_pow_right two_pos (by decide)
      omega)
    have hsum : (n : ℚ) / 1000000 + 2 ^ (-54 : Int) + 2 ^ (-25 : Int) < 1 := by
      rw [div_add' _ _ _ (by norm_num), div_add' _ _ _ (by norm_num), div_lt_one (by norm_num)]
      norm_num
      linarith
    have hw₂ : w₂ ≤ n / 1000000 + 2 ^ (-54 : Int) := by
      have h := h₂.le_add (by rw [hw₁, div_lt_one (by norm_num)]; linarith) (by decide)
      rw [hw₁] at h
      exact h
    have hw₂' : w₂ < 1 := by
      have : (0 : ℚ) < 2 ^ (-25 : Int) := zpow_pos two_pos _
      linarith
    calc w₃ ≤ w₂ + 2 ^ (-25 : Int) := h₃.le_add hw₂' (by decide)
      _ ≤ n / 1000000 + 2 ^ (-54 : Int) + 2 ^ (-25 : Int) := by gcongr
      _ < 1 := hsum

theorem singleRat_clamp {ms : Float32} (hfin : ms.isFinite = true) :
    singleRat (if ms < maxFrameMs then ms else maxFrameMs) = min (singleRat ms) 100 := by
  have hiff := lt_iff_singleRat_lt hfin posIn_maxFrameMs.isFinite
  rw [singleRat_maxFrameMs] at hiff
  split
  · rename_i hlt
    exact (min_eq_left (hiff.1 hlt).le).symm
  · rename_i hge
    rw [singleRat_maxFrameMs, min_eq_right (not_lt.1 (mt hiff.2 hge))]

/-- What one reading of the clock at `now` does to the timer `t`: it moves to `now` and
reports its last frame time, which it keeps when less than a million nanoseconds passed (the
gap saturating at zero) and otherwise sets to the reading, finite, clamped at one hundred. -/
structure FrameTimer.ReadsGap (t : FrameTimer) (now : UInt64) : Prop where
  moves : (t.elapsed now).2.lastNs = now
  returns : (t.elapsed now).1 = (t.elapsed now).2.lastMs
  keeps : (satSub now t.lastNs).toNat < 1000000 → (t.elapsed now).2.lastMs = t.lastMs
  replaces : 1000000 ≤ (satSub now t.lastNs).toNat →
    (narrow (doubleOfInt (satSub now t.lastNs).toNat / 1000000.0)).isFinite = true ∧
      singleRat (t.elapsed now).2.lastMs =
        min (singleRat (narrow (doubleOfInt (satSub now t.lastNs).toNat / 1000000.0))) 100

theorem FrameTimer.elapsed_readsGap (t : FrameTimer) (now : UInt64) : t.ReadsGap now := by
  have hn := (satSub now t.lastNs).toNat_lt
  have hlt := frameReading_lt_min_iff _ hn
  have hfin : 1000000 ≤ (satSub now t.lastNs).toNat →
      (narrow (doubleOfInt (satSub now t.lastNs).toNat / 1000000.0)).isFinite = true := by
    intro h
    obtain ⟨-, -, -, -, -, -, hf, -⟩ := frameReading_rounds (by omega) hn
    exact hf
  constructor <;> unfold FrameTimer.elapsed <;> dsimp only <;>
    generalize narrow (doubleOfInt (satSub now t.lastNs).toNat / 1000000.0) = ms at hlt hfin ⊢
  case moves => split <;> rfl
  case returns => split <;> rfl
  case keeps =>
    intro h
    rw [if_pos (hlt.2 h)]
  case replaces =>
    intro h
    have hlo : ¬ ms < minFrameMs := fun hlo => absurd (hlt.1 hlo) (not_lt.2 h)
    rw [if_neg hlo]
    exact ⟨hfin h, singleRat_clamp (hfin h)⟩

/-- A fresh timer fed the timestamps `ts` in order. -/
def FrameTimer.feed (ts : List UInt64) : FrameTimer :=
  ts.foldl (fun t n => (t.elapsed n).2) FrameTimer.new

theorem FrameTimer.foldl_lastMs (ts : List UInt64) (t : FrameTimer) (h : PosIn 1 100 t.lastMs) :
    PosIn 1 100 (ts.foldl (fun t n => (t.elapsed n).2) t).lastMs := by
  induction ts generalizing t with
  | nil => exact h
  | cons n ts ih =>
    rw [List.foldl_cons]
    exact ih _ (FrameTimer.elapsed_frame t n h).2

/-- Whatever timestamps a fresh timer was fed before, in any order, the next reading keeps its
report in `[1, 100]` and does what `ReadsGap` says. -/
theorem FrameTimer.reading_after_timestamps (ts : List UInt64) (now : UInt64) :
    PosIn 1 100 ((feed ts).elapsed now).2.lastMs ∧ (feed ts).ReadsGap now := by
  have ht : PosIn 1 100 (feed ts).lastMs := FrameTimer.foldl_lastMs ts _ posIn_minFrameMs
  exact ⟨(FrameTimer.elapsed_frame _ now ht).2, FrameTimer.elapsed_readsGap _ now⟩

end PointerAccel
