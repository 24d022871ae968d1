import PointerAccel.Json.Cursor
import PointerAccel.Binary.Decimal

/-!
# JSON tokens

Strings, literals and numbers, read the way the configuration reader reads them.

Numbers keep the reader's three shapes: an unsigned 64-bit integer, a negative 64-bit
integer, or a double. A double is computed best-effort as in the reader, not by exact
rounding: the decimal significand is accumulated in 64 bits (digits that no longer fit are
dropped, an integer part that overflows only counts its extra digits in the exponent), then
converted and multiplied or divided once by the nearest double to `10^|e|`. A positive
decimal exponent that overflows is an error; a huge negative one gives zero.
-/

namespace PointerAccel.Json

open PointerAccel.Binary Reader

/-- A number as read: unsigned, negative, or a double. -/
inductive Num where
  | unsigned (n : Nat)
  | negative (z : Int)
  | double (x : Float)

/-- Largest unsigned 64-bit value. -/
def u64Max : Nat := Nat.pow 2 64 - 1

/-- Largest signed 32-bit value, the bound of the decimal exponent. -/
def i32Max : Nat := Nat.pow 2 31 - 1

/-- Whether `acc·10 + d` exceeds `limit`. -/
def overflows (acc d limit : Nat) : Bool :=
  decide (limit / 10 ≤ acc) && (decide (limit / 10 < acc) || decide (limit % 10 < d))

/-- Value of an ASCII digit. -/
def digitVal (c : Char) : Nat := c.toNat - '0'.toNat

/-- The double nearest to `10^k`. -/
def pow10 (k : Nat) : Float := Decimal.toDouble ⟨false, 1, k⟩

/-- Clamp an integer into the signed 32-bit range. -/
def clampI32 (z : Int) : Int := max (-2147483648) (min 2147483647 z)

/-- `±sig·10^e` the best-effort way: one multiplication or division by a power of ten, with
exponents beyond the table scaled down by `10^308` while the value is non-zero. -/
def fromParts (positive : Bool) (sig : Nat) (e : Int) : Reader Float :=
  let rec go : Nat → Float → Int → Reader Float
    | 0, f, _ => pure f
    | fuel + 1, f, e =>
      if e.natAbs ≤ 308 then
        if 0 ≤ e then
          let g := f * pow10 e.natAbs
          if g.isInf then err .numberOutOfRange else pure g
        else pure (f / pow10 e.natAbs)
      else if f == 0.0 then pure f
      else if 0 ≤ e then err .numberOutOfRange
      else go fuel (f / pow10 308) (e + 308)
  do
    let f ← go 8 (doubleOfInt sig) e
    pure (if positive then f else -f)

/-- Skip a run of digits. -/
def skipDigits : Nat → Reader Unit
  | 0 => pure ()
  | fuel + 1 => do
    match ← peek with
    | some c => if c.isDigit then do bump; skipDigits fuel else pure ()
    | none => pure ()

/-- After an exponent that no longer fits: an error unless it is negative or the significand
is zero, in which case the remaining digits are skipped and the value is a signed zero. -/
def exponentOverflow (positive zeroSig positiveExp : Bool) (fuel : Nat) : Reader Float := do
  if !zeroSig && positiveExp then err .numberOutOfRange
  else
    skipDigits fuel
    pure (if positive then 0.0 else -0.0)

/-- Read an exponent after `e`/`E` (not yet consumed) and build the double. -/
def readExponent (positive : Bool) (sig : Nat) (start : Int) (fuel : Nat) : Reader Float := do
  bump
  let positiveExp ← do
    match ← peek with
    | some '+' => do bump; pure true
    | some '-' => do bump; pure false
    | _ => pure true
  match ← next with
  | none => err .eofWhileParsingValue
  | some c =>
    if !c.isDigit then err .invalidNumber
    else
      let final := fun (ex : Nat) =>
        fromParts positive sig (if positiveExp then clampI32 (start + ex) else clampI32 (start - ex))
      let rec loop : Nat → Nat → Reader Float
        | 0, ex => final ex
        | f + 1, ex => do
          match ← peek with
          | some d =>
            if !d.isDigit then final ex
            else if overflows ex (digitVal d) i32Max then
              bump *> exponentOverflow positive (sig == 0) positiveExp f
            else bump *> loop f (ex * 10 + digitVal d)
          | none => final ex
      loop fuel (digitVal c)

/-- After the fraction digits stopped fitting: skip the rest, then an optional exponent. -/
def decimalOverflow (positive : Bool) (sig : Nat) (e : Int) (fuel : Nat) : Reader Float := do
  skipDigits fuel
  match ← peek with
  | some 'e' => readExponent positive sig e fuel
  | some 'E' => readExponent positive sig e fuel
  | _ => fromParts positive sig e

/-- End of a fraction of `n` digits: none is an error, else an optional exponent. -/
def finishFraction (positive : Bool) (s n : Nat) (before : Int) (fuel : Nat) : Reader Float := do
  if n = 0 then
    match ← peek with
    | some _ => peekErr .invalidNumber
    | none => peekErr .eofWhileParsingValue
  else
    match ← peek with
    | some 'e' => readExponent positive s (before - n) fuel
    | some 'E' => readExponent positive s (before - n) fuel
    | _ => fromParts positive s (before - n)

/-- Read the fraction after `.` (not yet consumed): at least one digit, then an optional
exponent. -/
def readFraction (positive : Bool) (sig : Nat) (before : Int) (fuel : Nat) : Reader Float := do
  bump
  let rec loop : Nat → Nat → Nat → Reader Float
    | 0, s, n => finishFraction positive s n before fuel
    | f + 1, s, n => do
      match ← peek with
      | some d =>
        if d.isDigit then
          if overflows s (digitVal d) u64Max then decimalOverflow positive s (before - n) f
          else do bump; loop f (s * 10 + digitVal d) (n + 1)
        else finishFraction positive s n before fuel
      | none => finishFraction positive s n before fuel
  loop fuel sig 0

/-- An integer part that no longer fits: count the remaining digits into the exponent. -/
def longInteger (positive : Bool) (sig : Nat) (fuel : Nat) : Reader Float :=
  let rec loop : Nat → Nat → Reader Float
    | 0, e => fromParts positive sig e
    | f + 1, e => do
      match ← peek with
      | some '.' => readFraction positive sig e fuel
      | some 'e' => readExponent positive sig e fuel
      | some 'E' => readExponent positive sig e fuel
      | some c => if c.isDigit then do bump; loop f (e + 1) else fromParts positive sig e
      | none => fromParts positive sig e
  loop fuel 0

/-- What follows the integer digits: a fraction, an exponent, or the end of the number. A
negative zero, and a negative value below `-2^63`, become doubles. -/
def numberTail (positive : Bool) (sig : Nat) (fuel : Nat) : Reader Num := do
  match ← peek with
  | some '.' => Num.double <$> readFraction positive sig 0 fuel
  | some 'e' => Num.double <$> readExponent positive sig 0 fuel
  | some 'E' => Num.double <$> readExponent positive sig 0 fuel
  | _ =>
    if positive then pure (.unsigned sig)
    else if sig = 0 then pure (.double (-0.0))
    else if sig ≤ Nat.pow 2 63 then pure (.negative (-(sig : Int)))
    else pure (.double (-(doubleOfInt sig)))

/-- Read a number whose sign, if any, is already consumed. -/
def readNumber (positive : Bool) (fuel : Nat) : Reader Num := do
  match ← next with
  | none => err .eofWhileParsingValue
  | some '0' =>
    match ← peek with
    | some d => if d.isDigit then peekErr .invalidNumber else numberTail positive 0 fuel
    | none => numberTail positive 0 fuel
  | some c =>
    if !c.isDigit then err .invalidNumber
    else
      let rec loop : Nat → Nat → Reader Num
        | 0, s => numberTail positive s fuel
        | f + 1, s => do
          match ← peek with
          | some d =>
            if d.isDigit then
              if overflows s (digitVal d) u64Max then Num.double <$> longInteger positive s fuel
              else do bump; loop f (s * 10 + digitVal d)
            else numberTail positive s fuel
          | none => numberTail positive s fuel
      loop fuel (digitVal c)

/-- Check the remaining letters of a literal, each consumed before it is compared. -/
def readIdent : List Char → Reader Unit
  | [] => pure ()
  | c :: cs => do
    match ← next with
    | none => err .eofWhileParsingValue
    | some d => if d = c then readIdent cs else err .expectedSomeIdent

/-- Value of a hexadecimal digit. -/
def hexVal? (c : Char) : Option Nat :=
  if c.isDigit then some (digitVal c)
  else if 'a' ≤ c ∧ c ≤ 'f' then some (c.toNat - 87)
  else if 'A' ≤ c ∧ c ≤ 'F' then some (c.toNat - 55)
  else none

/-- Bytes of a character list. -/
def byteLength (cs : List Char) : Nat := cs.foldl (fun n c => n + c.utf8Size) 0

/-- Take characters until at least `n` bytes are taken. -/
def takeBytes : Nat → List Char → List Char
  | 0, _ => []
  | _, [] => []
  | n + 1, c :: cs => c :: takeBytes (n + 1 - c.utf8Size) cs

/-- Read the four bytes of a `\u` escape: the end of the text is an unterminated string, a
non-hex byte is an invalid escape (reported after the four bytes). -/
def readHex4 : Reader Nat := ⟨fun c =>
  if byteLength c.rest < 4 then
    let c' := c.rest.foldl (fun (acc : Cursor) _ => acc.bump) c
    .fail ⟨.eofWhileParsingString, c'.line, c'.col⟩ c'
  else
    let taken := takeBytes 4 c.rest
    let c' := taken.foldl (fun (acc : Cursor) _ => acc.bump) c
    let value := taken.foldl (fun acc ch => acc.bind fun v => (hexVal? ch).map (v * 16 + ·)) (some 0)
    match value with
    | some v => if taken.length = 4 then .ok v c' else .fail ⟨.invalidEscape, c'.line, c'.col⟩ c'
    | none => .fail ⟨.invalidEscape, c'.line, c'.col⟩ c'⟩

/-- The next character or an unterminated-string error. -/
def peekInString : Reader Char := do
  match ← peek with
  | some c => pure c
  | none => err .eofWhileParsingString

/-- Read a `\u` escape (the `u` consumed): a BMP character, or a surrogate pair that must be
complete. -/
def readUnicodeEscape : Reader Char := do
  let n ← readHex4
  if 0xDC00 ≤ n ∧ n ≤ 0xDFFF then err .loneLeadingSurrogateInHexEscape
  else if n < 0xD800 ∨ 0xDBFF < n then pure (Char.ofNat n)
  else
    if (← peekInString) = '\\' then bump else do bump; err .unexpectedEndOfHexEscape
    if (← peekInString) = 'u' then bump else do bump; err .unexpectedEndOfHexEscape
    let n2 ← readHex4
    if n2 < 0xDC00 ∨ 0xDFFF < n2 then err .loneLeadingSurrogateInHexEscape
    else pure (Char.ofNat ((n - 0xD800) * 1024 + (n2 - 0xDC00) + 0x10000))

/-- Read the escape after a backslash (not yet consumed). -/
def readEscape : Reader Char := do
  match ← next with
  | none => err .eofWhileParsingString
  | some c =>
    if c = '"' then pure '"'
    else if c = '\\' then pure '\\'
    else if c = '/' then pure '/'
    else if c = 'b' then pure (Char.ofNat 8)
    else if c = 'f' then pure (Char.ofNat 12)
    else if c = 'n' then pure '\n'
    else if c = 'r' then pure '\r'
    else if c = 't' then pure '\t'
    else if c = 'u' then readUnicodeEscape
    else err .invalidEscape

/-- Read a string body after the opening quote, through the closing quote. A raw control
character is an error reported after it. -/
def readString (fuel : Nat) : Reader String :=
  let rec loop : Nat → List Char → Reader String
    | 0, _ => err .eofWhileParsingString
    | f + 1, acc => do
      match ← next with
      | none => err .eofWhileParsingString
      | some '"' => pure (String.ofList acc.reverse)
      | some '\\' => do let ch ← readEscape; loop f (ch :: acc)
      | some ch =>
        if ch.toNat < 0x20 then err .controlCharacterWhileParsingString else loop f (ch :: acc)
  loop fuel []

/-- Skip an escape after a backslash (not yet consumed) without checking `\u` values. -/
def skipEscape : Reader Unit := do
  match ← next with
  | none => err .eofWhileParsingString
  | some c =>
    if c = '"' ∨ c = '\\' ∨ c = '/' ∨ c = 'b' ∨ c = 'f' ∨ c = 'n' ∨ c = 'r' ∨ c = 't' then pure ()
    else if c = 'u' then do let _ ← readHex4; pure ()
    else err .invalidEscape

/-- Skip a string body after the opening quote. A raw control character is reported before
it is consumed. -/
def skipString : Nat → Reader Unit
  | 0 => err .eofWhileParsingString
  | f + 1 => do
    match ← peek with
    | none => err .eofWhileParsingString
    | some '"' => bump
    | some '\\' => do bump; skipEscape; skipString f
    | some ch =>
      if ch.toNat < 0x20 then err .controlCharacterWhileParsingString
      else do bump; skipString f

/-- Skip an exponent after `e`/`E` (not yet consumed), checking only its shape. -/
def skipExponent (fuel : Nat) : Reader Unit := do
  bump
  match ← peek with
  | some '+' => bump
  | some '-' => bump
  | _ => pure ()
  match ← next with
  | some c => if c.isDigit then skipDigits fuel else err .invalidNumber
  | none => err .invalidNumber

/-- Skip a number whose sign, if any, is already consumed, checking only its shape. -/
def skipNumber (fuel : Nat) : Reader Unit := do
  match ← next with
  | some '0' =>
    match ← peek with
    | some d => if d.isDigit then peekErr .invalidNumber else pure ()
    | none => pure ()
  | some c => if c.isDigit then skipDigits fuel else err .invalidNumber
  | none => err .invalidNumber
  match ← peek with
  | some '.' =>
    bump
    match ← peek with
    | some d =>
      if d.isDigit then do
        skipDigits fuel
        match ← peek with
        | some 'e' => skipExponent fuel
        | some 'E' => skipExponent fuel
        | _ => pure ()
      else peekErr .invalidNumber
    | none => peekErr .invalidNumber
  | some 'e' => skipExponent fuel
  | some 'E' => skipExponent fuel
  | _ => pure ()

end PointerAccel.Json
