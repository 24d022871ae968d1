/-!
# Trimming and small integers in text

Parameter values arrive as free text. Two readers are shared by the surface and the float
reader: trimming by the Unicode `White_Space` property (not only ASCII blanks), and reading
an unsigned byte the way the standard integer reader does: an optional `+`, then ASCII
digits only, with overflow an error.
-/

namespace PointerAccel.Text

/-- Characters with the Unicode `White_Space` property. -/
def isUnicodeSpace (c : Char) : Bool :=
  let n := c.toNat
  (0x09 ≤ n ∧ n ≤ 0x0D) || n == 0x20 || n == 0x85 || n == 0xA0 || n == 0x1680 ||
    (0x2000 ≤ n ∧ n ≤ 0x200A) || n == 0x2028 || n == 0x2029 || n == 0x202F ||
    n == 0x205F || n == 0x3000

/-- Drop `White_Space` characters from both ends. -/
def trimSpace (s : String) : String :=
  String.ofList (((s.toList.dropWhile isUnicodeSpace).reverse.dropWhile isUnicodeSpace).reverse)

/-- Read ASCII digits into a natural number; `none` on any other character or no digit. -/
def readNat (cs : List Char) : Option Nat :=
  if cs.isEmpty then none
  else cs.foldl (fun acc c => acc.bind fun v =>
    if c.isDigit then some (v * 10 + (c.toNat - '0'.toNat)) else none) (some 0)

/-- Read an unsigned integer below `bound`: an optional `+` and ASCII digits. -/
def readUnsigned (bound : Nat) (s : String) : Option Nat :=
  let cs := match s.toList with
    | '+' :: rest => rest
    | cs => cs
  match readNat cs with
  | some v => if v < bound then some v else none
  | none => none

/-- Read a byte value: an optional `+` and digits, below 256. -/
def readByte (s : String) : Option UInt8 :=
  (readUnsigned 256 s).map UInt8.ofNat

end PointerAccel.Text
