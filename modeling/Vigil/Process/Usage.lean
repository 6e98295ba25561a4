/-!
# What a probe of the system answers

The usage of a process tree, the members of a process group, and the ways in which asking for them can
fail. CPU times are milliseconds, memory is in bytes, and both are kept in sixty-four bits.
-/

namespace Vigil

/-- The usage of one live process: its CPU time so far and its resident memory. -/
structure Usage where
  pid : Int
  cpuTime : Nat
  residentBytes : Nat
  deriving DecidableEq, Repr

inductive ProbeError where
  | gone
  | unavailable (reason : String)
  deriving DecidableEq, Repr

def ProbeError.message : ProbeError → String
  | .gone => "process is gone"
  | .unavailable reason => s!"process metrics unavailable: {reason}"

abbrev GroupProbe := Except ProbeError (List Int)

abbrev TreeProbe := Except ProbeError (List Usage)

def counterSize : Nat := Nat.pow 2 64

def saturate (n : Nat) : Nat := min n (counterSize - 1)

def Usage.totalResident (members : List Usage) : Nat :=
  (members.map (·.residentBytes)).foldr (· + ·) 0 % counterSize

inductive Signal where
  | terminate
  | kill
  deriving DecidableEq, Repr

def Signal.name : Signal → String
  | .terminate => "SIGTERM"
  | .kill => "SIGKILL"

end Vigil
