/-!
# Requests to stop

Which kind of shutdown an operating-system signal asks for. An interrupt asks for a graceful one; a second
interrupt soon after it asks to stop at once. A termination request is always graceful and has no part in
that pair.
-/

namespace Vigil

inductive StopSignal where
  | interrupt
  | terminate
  deriving DecidableEq, Repr

inductive StopRequest where
  | graceful
  | immediate
  deriving DecidableEq, Repr

/-- Two interrupts no further apart than this make a pair, in milliseconds. -/
def doubleTap : Nat := 3000

structure Interrupts where
  last : Option Nat := none
  deriving DecidableEq, Repr

namespace Interrupts

def receive (i : Interrupts) (signal : StopSignal) (now : Nat) : Interrupts × StopRequest :=
  match signal with
  | .terminate => (i, .graceful)
  | .interrupt =>
    let again := i.last.any fun t => now - t ≤ doubleTap
    ({ last := some now }, if again then .immediate else .graceful)

end Interrupts

end Vigil
