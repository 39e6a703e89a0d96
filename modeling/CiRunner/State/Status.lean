import Mathlib.Logic.Function.Basic

/-! The statuses of a runner request. -/

namespace CiRunner.State

inductive Status where
  | queued | creating | running | stopping | completed | failed
  deriving DecidableEq, Repr

namespace Status

def text : Status → String
  | .queued => "queued"
  | .creating => "creating"
  | .running => "running"
  | .stopping => "stopping"
  | .completed => "completed"
  | .failed => "failed"

/-- The statuses that occupy runner capacity. -/
def inFlight : Status → Bool
  | .creating | .running | .stopping => true
  | _ => false

end Status

end CiRunner.State
