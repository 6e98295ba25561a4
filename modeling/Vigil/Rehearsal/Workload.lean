import Vigil.Files.System
import Vigil.Rehearsal.Task

/-!
# Workloads

What launching a command comes to: the program that it becomes on a scripted host, or why it cannot be
launched, and the disk as the program leaves it.
-/

namespace Vigil.Rehearsal

structure Launched where
  program : Program
  disk : Disk

/-- How what is run behaves, with its arguments, under a process number and on a disk. -/
abbrev Behaviour := Disk.Executable → List String → Int → Disk → Launched

namespace Workload

def notRunnable : SystemError := .ofNumber 8

def launch (b : Behaviour) (d : Disk) (pid : Int) : List String → Except LaunchError Launched
  | [] => .error .emptyCommand
  | name :: args =>
    match d.executable? Disk.defaultSearch name with
    | .error e => .error (.spawn name e)
    | .ok (.unknown _) => .error (.spawn name notRunnable)
    | .ok x => .ok (b x args pid d)

end Workload

end Vigil.Rehearsal
