import PointerAccel.Binary.Decimal
import PointerAccel.Text.Trim

/-!
# Reading a parameter float from text

Surface strings are read leniently: surrounding white space is dropped and one trailing
`f` or `F` suffix is allowed (`2.0f`). The suffix is only stripped when what remains does
not end in a letter of `nan` or `inf`, so `inff` still reads as infinity while `NaNf` is
refused.
-/

namespace PointerAccel

open PointerAccel.Binary PointerAccel.Text

/-- Drop one trailing `f`, or else one trailing `F`. -/
def stripFloatSuffix (s : String) : String :=
  match s.toList.reverse with
  | 'f' :: rest => String.ofList rest.reverse
  | 'F' :: rest => String.ofList rest.reverse
  | _ => s

/-- Whether a text is empty or ends in one of `n`, `N`, `i`, `I`. -/
def endsLikeWord (s : String) : Bool :=
  match s.toList.reverse with
  | [] => true
  | c :: _ => c == 'n' || c == 'N' || c == 'i' || c == 'I'

/-- Read a surface string as a single, `none` when it is not a float. -/
def readParamFloat (raw : String) : Option Float32 :=
  let trimmed := trimSpace raw
  let digits := stripFloatSuffix trimmed
  if endsLikeWord digits then readSingle trimmed else readSingle digits

end PointerAccel
