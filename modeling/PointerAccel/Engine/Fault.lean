/-!
# Cycle faults

A processing cycle either succeeds or fails in one of two ways. Each failure has a code,
a negative errno, a severity and a message; severities are ordered and everything below
critical is recoverable.
-/

namespace PointerAccel

/-- How serious a failure is, in increasing order. -/
inductive Severity where
  | info
  | warning
  | error
  | critical
  deriving Repr, DecidableEq

namespace Severity

/-- Position in the order `info < warning < error < critical`. -/
def rank : Severity → Nat
  | .info => 0
  | .warning => 1
  | .error => 2
  | .critical => 3

/-- The severity with the given rank, if any. -/
def ofRank? : Nat → Option Severity
  | 0 => some .info
  | 1 => some .warning
  | 2 => some .error
  | 3 => some .critical
  | _ => none

/-- The variant name. -/
def name : Severity → String
  | .info => "Info"
  | .warning => "Warning"
  | .error => "Error"
  | .critical => "Critical"

/-- The display text. -/
def display : Severity → String
  | .info => "INFO"
  | .warning => "WARN"
  | .error => "ERROR"
  | .critical => "CRITICAL"

/-- Everything below critical is recoverable. -/
def isRecoverable (s : Severity) : Bool := s.rank < 3

end Severity

/-- Why a cycle produced no output. -/
inductive CycleError where
  | contextUnavailable
  | numericFault
  deriving Repr, DecidableEq

namespace CycleError

/-- The byte code. -/
def code : CycleError → Nat
  | .contextUnavailable => 1
  | .numericFault => 2

/-- The failure with a byte code, if any. -/
def ofCode? : Nat → Option CycleError
  | 1 => some .contextUnavailable
  | 2 => some .numericFault
  | _ => none

/-- The negative errno: busy for an unavailable context, fault for a numeric fault. -/
def errno : CycleError → Int
  | .contextUnavailable => -16
  | .numericFault => -14

/-- An unavailable context is informational; a numeric fault is a warning. -/
def severity : CycleError → Severity
  | .contextUnavailable => .info
  | .numericFault => .warning

/-- The variant name. -/
def name : CycleError → String
  | .contextUnavailable => "ContextUnavailable"
  | .numericFault => "NumericFault"

/-- The message. -/
def message : CycleError → String
  | .contextUnavailable => "Numeric context unavailable"
  | .numericFault => "Floating-point fault trapped"

end CycleError

/-- The status of a processed cycle. -/
inductive ProcessStatus where
  | ok
  | contextUnavailable
  | numericFault
  deriving Repr, DecidableEq

namespace ProcessStatus

/-- The status of a cycle result. -/
def ofError? : Option CycleError → ProcessStatus
  | none => .ok
  | some .contextUnavailable => .contextUnavailable
  | some .numericFault => .numericFault

/-- Zero for success, the failure's errno otherwise. -/
def errno : ProcessStatus → Int
  | .ok => 0
  | .contextUnavailable => CycleError.contextUnavailable.errno
  | .numericFault => CycleError.numericFault.errno

/-- The short name. -/
def name : ProcessStatus → String
  | .ok => "ok"
  | .contextUnavailable => "unavailable"
  | .numericFault => "fault"

/-- The name used in serialized reports. -/
def tag : ProcessStatus → String
  | .ok => "ok"
  | .contextUnavailable => "context_unavailable"
  | .numericFault => "numeric_fault"

end ProcessStatus

end PointerAccel
