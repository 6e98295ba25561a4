import Vigil.Health.State
import Vigil.SystemError

/-!
# Launching a workload

A workload is a command whose process leads a new group, so its group number is its process number.
-/

namespace Vigil

inductive LaunchError where
  | emptyCommand
  | spawn (program : String) (source : SystemError)
  /-- The process ended before it had shown its number. -/
  | noPid (program : String)
  deriving DecidableEq, Repr

namespace LaunchError

def message : LaunchError → String
  | .emptyCommand => "no command given"
  | .spawn program source => s!"failed to spawn {program}: {source.message}"
  | .noPid program => s!"{program} exited before it could be tracked"

def source? : LaunchError → Option SystemError
  | .spawn _ source => some source
  | _ => none

end LaunchError

end Vigil
