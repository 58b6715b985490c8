/-!
# Emosa.Errors

The reasons an operation or a frame is refused with, and the error that carries one.
-/

namespace Emosa

inductive Reason where
  | invalidInput
  | unsupportedOperation
  | schemaMismatch
  | notReady
  | ownershipConflict
  | preconditionFailed
  | applyTimeout
  | outcomeUnknown
  | missingPrerequisite
  | busy
  | notFound
  deriving DecidableEq, Repr

/-- The text a reason is stored and compared as. -/
def Reason.value : Reason → String
  | .invalidInput => "INVALID_INPUT"
  | .unsupportedOperation => "UNSUPPORTED_OPERATION"
  | .schemaMismatch => "SCHEMA_MISMATCH"
  | .notReady => "NOT_READY"
  | .ownershipConflict => "OWNERSHIP_CONFLICT"
  | .preconditionFailed => "PRECONDITION_FAILED"
  | .applyTimeout => "APPLY_TIMEOUT"
  | .outcomeUnknown => "OUTCOME_UNKNOWN"
  | .missingPrerequisite => "MISSING_PREREQUISITE"
  | .busy => "BUSY"
  | .notFound => "NOT_FOUND"

structure EmosaError where
  code : Reason
  message : String
  deriving DecidableEq, Repr

end Emosa
