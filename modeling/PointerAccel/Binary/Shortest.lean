import PointerAccel.Binary.Single

/-!
# Shortest round-trip digits

A finite value `v = mant·2^exp` is the nearest value of its format to every real in its
rounding interval: halfway to each neighbour, the ends included exactly when `mant` is
even (ties go to the even significand). The shortest decimal for `v` is a decimal with the
fewest significant digits inside that interval, and among those the one nearest to `v`.

All comparisons are exact. The interval ends and `v` are scaled by four to make them
integers times `2^(exp-2)`; a decimal `d·10^k` is compared with them as a fraction with the
powers of two and of ten distributed over numerator and denominator.
-/

namespace PointerAccel.Binary

open BinaryFormat

/-- A positive decimal `sig·10^exp10` whose significand has no trailing zero. -/
structure Digits where
  sig : Nat
  exp10 : Int
  deriving Repr, DecidableEq

/-- `⌊x·2^e / 10^k⌋` for a natural `x` and integers `e`, `k`. -/
def floorScaled (x : Nat) (e k : Int) : Nat :=
  let num := x * Nat.pow 2 e.toNat * Nat.pow 10 (-k).toNat
  let den := Nat.pow 2 (-e).toNat * Nat.pow 10 k.toNat
  num / den

/-- Whether `x·2^e` is an exact multiple of `10^k`. -/
def divisibleScaled (x : Nat) (e k : Int) : Bool :=
  let num := x * Nat.pow 2 e.toNat * Nat.pow 10 (-k).toNat
  let den := Nat.pow 2 (-e).toNat * Nat.pow 10 k.toNat
  num % den == 0

/-- `x·2^e / 10^k` rounded to the nearest integer, halves rounding up. -/
def roundScaled (x : Nat) (e k : Int) : Nat :=
  let num := x * Nat.pow 2 e.toNat * Nat.pow 10 (-k).toNat
  let den := Nat.pow 2 (-e).toNat * Nat.pow 10 k.toNat
  (2 * num + den) / (2 * den)

/-- Whether `10^j ≤ x·2^e`. -/
def tenPowLe (x : Nat) (e j : Int) : Bool := 1 ≤ floorScaled x e j

/-- Correct an estimate of `⌊log₁₀(x·2^e)⌋` one step at a time, `fuel` steps at most. -/
def fixLog10 (x : Nat) (e : Int) : Nat → Int → Int
  | 0, j => j
  | fuel + 1, j =>
    if !tenPowLe x e j then fixLog10 x e fuel (j - 1)
    else if tenPowLe x e (j + 1) then fixLog10 x e fuel (j + 1)
    else j

/-- `⌊log₁₀(x·2^e)⌋` for a positive `x`: the estimate `(log₂ x + e)·1233/4096` is off by at
most two, which the eight correction steps cover. -/
def floorLog10 (x : Nat) (e : Int) : Int :=
  fixLog10 x e 8 (((Nat.log2 x : Int) + e) * 1233 / 4096)

/-- Strip trailing zeros from a significand, moving them into the exponent. -/
def Digits.normalize (sig : Nat) (exp10 : Int) : Digits :=
  if h : sig ≠ 0 ∧ sig % 10 = 0 then Digits.normalize (sig / 10) (exp10 + 1)
  else ⟨sig, exp10⟩
termination_by sig
decreasing_by omega

/-- The rounding interval of a positive finite `mant·2^exp`, scaled by four: the lower end,
the value and the upper end as multiples of `2^(exp-2)`, and whether the ends belong to it.
The gap below is halved at the bottom of a binade, except in the lowest binade. -/
def roundingInterval (f : BinaryFormat) (mant : Nat) (exp : Int) : Nat × Nat × Nat × Bool :=
  let lo := if mant = f.hidden ∧ f.minExp < exp then 4 * mant - 1 else 4 * mant - 2
  (lo, 4 * mant, 4 * mant + 2, mant % 2 == 0)

/-- The `n`-significant-digit candidate for the interval, if one lies in it: the grid is
`10^k` with `k = ⌊log₁₀ v⌋ - n + 1`, and of the grid points inside the interval the one
nearest to `v` is taken. -/
def candidate (lo v hi : Nat) (incl : Bool) (e : Int) (n : Nat) : Option (Nat × Int) :=
  let k := floorLog10 v e - n + 1
  let dlo := if incl && divisibleScaled lo e k then floorScaled lo e k
    else floorScaled lo e k + 1
  let dhi := if !incl && divisibleScaled hi e k then floorScaled hi e k - 1
    else floorScaled hi e k
  if dlo ≤ dhi ∧ 0 < dhi then some (max dlo (min dhi (roundScaled v e k)), k) else none

/-- Try digit counts `n, n+1, …` for `fuel` more steps. -/
def searchDigits (lo v hi : Nat) (incl : Bool) (e : Int) : Nat → Nat → Option (Nat × Int)
  | 0, _ => none
  | fuel + 1, n =>
    match candidate lo v hi incl e n with
    | some r => some r
    | none => searchDigits lo v hi incl e fuel (n + 1)

/-- The shortest decimal of a positive finite `mant·2^exp` in format `f`. Seventeen digits
always suffice for the formats here; the exact value is the fallback. -/
def shortest (f : BinaryFormat) (mant : Nat) (exp : Int) : Digits :=
  let (lo, v, hi, incl) := roundingInterval f mant exp
  match searchDigits lo v hi incl (exp - 2) 17 1 with
  | some (d, k) => Digits.normalize d k
  | none => Digits.normalize (roundScaled v (exp - 2) (floorLog10 v (exp - 2) - 16)) (floorLog10 v (exp - 2) - 16)

end PointerAccel.Binary
