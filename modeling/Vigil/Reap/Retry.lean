/-!
# Bounded attempts

An operation that may be repeated, but never without end: attempts are numbered from one and come to an
end, and the pause between two of them doubles up to a limit.
-/

namespace Vigil

structure Attempts where
  limit : Nat
  made : Nat := 0
  deriving DecidableEq, Repr

namespace Attempts

def next (a : Attempts) : Attempts × Option Nat :=
  if a.limit ≤ a.made then (a, none) else ({ a with made := a.made + 1 }, some (a.made + 1))

end Attempts

/-- The pause after so many attempts in a row: `initial` doubled that many times, at most `limit`. The
doubling saturates in sixty-four bits, first the factor and then the product. -/
def backoff (initial consecutive limit : Nat) : Nat :=
  let top := Nat.pow 2 64 - 1
  let factor := if consecutive < 64 then Nat.pow 2 consecutive else top
  min (min (initial * factor) top) limit

end Vigil
