import Vigil.Decimal.Fixed
import Vigil.Evidence.Groups
import Vigil.Evidence.Ring
import Vigil.Output.Fingerprint
import Vigil.Settings.Basic

/-!
# Repetition in the log window

Whether the recent lines of a workload go round in circles. A full window is an exact loop if enough of
its lines are equal, else a fuzzy loop if enough of them share a shape. A fuzzy loop whose lines hardly
repeat and carry progress markers tells of work going on and is no evidence of a loop.
-/

namespace Vigil

inductive RepetitionVerdict where
  | varied
  | exactLoop
  | fuzzyLoop
  deriving DecidableEq, Repr, Inhabited

structure Repetition where
  verdict : RepetitionVerdict
  windowLen : Nat
  exactFraction : Float
  shapeFraction : Float
  rawDiversity : Float
  progressLike : Bool
  deriving DecidableEq, Repr

namespace Repetition

def unjudged (windowLen : Nat) : Repetition :=
  { verdict := .varied, windowLen, exactFraction := 0, shapeFraction := 0, rawDiversity := 1,
    progressLike := false }

def isLoopEvidence (r : Repetition) : Bool :=
  match r.verdict with
  | .exactLoop => true
  | .fuzzyLoop => !r.progressLike
  | .varied => false

def percent (fraction : Float) : String := Decimal.fixed 0 (fraction * 100)

def describe (r : Repetition) : String :=
  match r.verdict with
  | .exactLoop => s!"exact loop: {percent r.exactFraction}% of {r.windowLen} lines identical"
  | .fuzzyLoop => s!"fuzzy loop: {percent r.shapeFraction}% of {r.windowLen} lines share one shape"
  | .varied => s!"varied output over {r.windowLen} lines"

variable {κ : Type}

/-- A window is full if it has no room left, or if it has lost lines and enough of them remain. -/
def isFull (s : Settings.Logs) (window : Ring (Fingerprint κ)) : Bool :=
  window.isAtCapacity || (window.evicted && s.minLines ≤ window.size)

variable [DecidableEq κ]

def halfMarked (lines : List (Fingerprint κ)) (shape : κ) : Bool :=
  let members := lines.filter fun f => f.shape = shape
  members.length ≤ (members.filter (·.progress)).length * 2

def ofLines (s : Settings.Logs) (lines : List (Fingerprint κ)) : Repetition :=
  let exact := lines.map (·.exact)
  match KeyGroup.dominant? exact, KeyGroup.dominant? (lines.map (·.shape)) with
  | some topExact, some topShape =>
    let len := Float.ofNat lines.length
    let exactFraction := Float.ofNat topExact.count / len
    let shapeFraction := Float.ofNat topShape.count / len
    let rawDiversity := Float.ofNat (KeyGroup.distinct exact) / len
    let verdict :=
      if s.exactThreshold ≤ exactFraction then .exactLoop
      else if s.fuzzyThreshold ≤ shapeFraction then .fuzzyLoop
      else .varied
    { verdict, windowLen := lines.length, exactFraction, shapeFraction, rawDiversity,
      progressLike := verdict = .fuzzyLoop && s.progressDiversity ≤ rawDiversity &&
        halfMarked lines topShape.key }
  | _, _ => unjudged 0

def detect (s : Settings.Logs) (window : Ring (Fingerprint κ)) : Repetition :=
  if isFull s window then ofLines s window.values else unjudged window.size

end Repetition

end Vigil
