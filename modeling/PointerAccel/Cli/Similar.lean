/-!
# Similar words

When a word on the command line names nothing, the closest known names are offered
instead. Closeness is the Jaro similarity of the two character strings: with `m` characters
matched (equal characters no further apart than half the longer length, less one) and `t`
half the number of matched characters that come in a different order,

  `sim a b = (m / |a| + m / |b| + (m - t) / m) / 3`,

and `0` when nothing matches (`1` for two empty strings). A name is offered when its
similarity exceeds `7 / 10`; several are listed from the least to the most similar.

Similarities are kept as exact fractions, so that comparisons are decided without rounding.
-/

namespace PointerAccel.Cli

/-- A similarity as an exact fraction `num / den` (with `den > 0`). -/
structure Similarity where
  num : Nat
  den : Nat

/-- `x < y` on similarities, by cross-multiplication. -/
def Similarity.lt (x y : Similarity) : Bool := x.num * y.den < y.num * x.den

/-- Mark the first unmatched position of `b` within `[lo, hi)` holding `c`: the new marks
and whether one was made. -/
def markMatch (c : Char) (lo hi : Nat) : Nat → List Char → List Bool → List Bool × Bool
  | j, d :: ds, f :: fs =>
    if lo ≤ j && j < hi && d == c && !f then (true :: fs, true)
    else
      let (fs', found) := markMatch c lo hi (j + 1) ds fs
      (f :: fs', found)
  | _, _, fs => (fs, false)

/-- Match the characters of `a` (from position `i`) against `b`, within `range` places:
which characters of `a` matched, and the marks on `b`. -/
def matchAll (b : List Char) (range : Nat) : Nat → List Char → List Bool → List Bool × List Bool
  | _, [], bMarks => ([], bMarks)
  | i, c :: cs, bMarks =>
    let lo := i - range
    let hi := min b.length (i + range + 1)
    let (bMarks', found) := markMatch c lo hi 0 b bMarks
    let (aMarks, bMarks'') := matchAll b range (i + 1) cs bMarks'
    (found :: aMarks, bMarks'')

/-- The characters of a string at marked positions, in order. -/
def marked : List Char → List Bool → List Char
  | c :: cs, f :: fs => if f then c :: marked cs fs else marked cs fs
  | _, _ => []

/-- The number of positions where two lists differ. -/
def mismatches : List Char → List Char → Nat
  | x :: xs, y :: ys => (if x == y then 0 else 1) + mismatches xs ys
  | _, _ => 0

/-- The Jaro similarity of two strings. -/
def jaro (a b : String) : Similarity :=
  let as := a.toList
  let bs := b.toList
  if as.isEmpty && bs.isEmpty then ⟨1, 1⟩
  else if as.isEmpty || bs.isEmpty then ⟨0, 1⟩
  else
    let range := max as.length bs.length / 2 - 1
    let (aMarks, bMarks) := matchAll bs range 0 as (List.replicate bs.length false)
    let ma := marked as aMarks
    let m := ma.length
    if m == 0 then ⟨0, 1⟩
    else
      let t := mismatches ma (marked bs bMarks) / 2
      let la := as.length
      let lb := bs.length
      ⟨m * m * lb + m * m * la + (m - t) * la * lb, 3 * la * lb * m⟩

/-- Whether a similarity is high enough for a name to be offered: above `7 / 10`. -/
def Similarity.offered (s : Similarity) : Bool := 7 * s.den < 10 * s.num

/-- Insert a scored name into a list ordered by similarity, after the names that are no
more similar. -/
def insertByScore (x : Similarity × String) : List (Similarity × String) → List (Similarity × String)
  | [] => [x]
  | y :: ys => if x.1.lt y.1 then x :: y :: ys else y :: insertByScore x ys

/-- The names close enough to a word, from the least to the most similar (names equally
similar keep their order). -/
def similarNames (word : String) (names : List String) : List String :=
  let scored := names.filterMap fun n =>
    let s := jaro word n
    if s.offered then some (s, n) else none
  (scored.foldl (fun acc x => insertByScore x acc) []).map Prod.snd

end PointerAccel.Cli
