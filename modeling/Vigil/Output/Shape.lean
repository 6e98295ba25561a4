import Vigil.Text.Scan

/-!
# The shape of a line

Two lines have the same shape if they differ only in numbers. `normalize` writes one placeholder for each
hexadecimal literal, and then one for each run of decimal digits that is left.
-/

namespace Vigil.Shape

open CharClass

def placeholder : List Char := ['#']

/-- `0x` or `0X` with the longest run of hexadecimal digits behind it, of which there is at least one. -/
def hexLiteral : Matcher
  | _, '0' :: x :: rest =>
    let ds := rest.takeWhile isHexDigit
    if (x = 'x' ∨ x = 'X') ∧ ds ≠ [] then some ⟨ds.length + 2, placeholder⟩ else none
  | _, _ => none

def digitRun : Matcher := fun _ text =>
  let ds := text.takeWhile isAsciiDigit
  if ds ≠ [] then some ⟨ds.length, placeholder⟩ else none

def collapse (text : List Char) : List Char :=
  Scan.replaceAll digitRun (Scan.replaceAll hexLiteral text)

def normalize (line : String) : String := String.ofList (collapse line.toList)

end Vigil.Shape
