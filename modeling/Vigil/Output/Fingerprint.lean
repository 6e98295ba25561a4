import Vigil.Output.Shape
import Vigil.Output.Progress

/-!
# Fingerprints of output lines

What repetition is judged by: a key that equal lines share, a key that lines of one shape share, and
whether the line tells of progress. Only equality of keys counts, so the key type is a parameter; a line
itself is keyed by its text and its normalized text.
-/

namespace Vigil

structure Fingerprint (κ : Type) where
  exact : κ
  shape : κ
  progress : Bool
  deriving DecidableEq, Repr

def isLineEnd (c : Char) : Bool := c == '\r' || c == '\n'

def trimLineEnd (line : List Char) : List Char := (line.reverse.dropWhile isLineEnd).reverse

def Fingerprint.ofLine (line : String) : Fingerprint String :=
  let text := trimLineEnd line.toList
  { exact := String.ofList text
    shape := String.ofList (Shape.collapse text)
    progress := Progress.isMarked text }

end Vigil
