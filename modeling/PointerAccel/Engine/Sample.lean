import PointerAccel.Binary.Single

/-!
# Samples and the event buffer

A raw sample is three signed 32-bit deltas. A sample is usable only if every delta survives
a round trip through single precision; otherwise, and whenever the numeric context is
unavailable, it is added to a buffer of 64-bit sums that saturate rather than wrap, and the
buffer is merged into the next cycle that runs.
-/

namespace PointerAccel

open PointerAccel.Binary

/-- The smallest 32-bit delta, which doubles as the fault sentinel. -/
def sentinel : Int := -2147483648

/-- One device report. -/
structure RawSample where
  dx : Int32
  dy : Int32
  dwheel : Int32
  deriving Repr, DecidableEq

namespace RawSample

/-- The zero sample. -/
def zero : RawSample := ⟨0, 0, 0⟩

/-- The deltas in order. -/
def fields (s : RawSample) : List Int := [s.dx.toInt, s.dy.toInt, s.dwheel.toInt]

/-- Whether every delta is zero. -/
def isZero (s : RawSample) : Bool := s.fields.all (· == 0)

/-- Whether converting the delta to single precision and back gives it back. -/
def roundTrips (v : Int) : Bool := (decodeSingle (singleOfInt v)).truncInt == v

/-- Whether every delta survives a round trip through single precision. -/
def isFloatExact (s : RawSample) : Bool := s.fields.all roundTrips

/-- Whether some delta equals the sentinel. -/
def hasSentinel (s : RawSample) : Bool := s.fields.any (· == sentinel)

end RawSample

/-- Clamp an integer into the signed 64-bit range. -/
def clampI64 (z : Int) : Int64 :=
  Int64.ofInt (max (-9223372036854775808) (min 9223372036854775807 z))

/-- Saturating sums of buffered deltas. -/
structure EventBuffer where
  x : Int64
  y : Int64
  wheel : Int64
  deriving Repr, DecidableEq

namespace EventBuffer

/-- The empty buffer. -/
def empty : EventBuffer := ⟨0, 0, 0⟩

/-- Add a sample to the sums, saturating at the 64-bit bounds. -/
def absorb (b : EventBuffer) (s : RawSample) : EventBuffer :=
  ⟨clampI64 (b.x.toInt + s.dx.toInt), clampI64 (b.y.toInt + s.dy.toInt),
    clampI64 (b.wheel.toInt + s.dwheel.toInt)⟩

/-- Whether all three sums are zero. -/
def isEmpty (b : EventBuffer) : Bool := b.x == 0 && b.y == 0 && b.wheel == 0

end EventBuffer

end PointerAccel
