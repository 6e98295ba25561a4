import Vigil.Decimal.Binary

/-!
# Doubles with a fixed number of decimal places

The exact binary value is rounded to the nearest multiple of the last place, a tie to the even one. The
sign is written whenever the sign bit is set, also in front of zero.
-/

namespace Vigil.Decimal

/-- The natural number nearest to `num / den`; a tie goes to the even neighbour. -/
def roundDiv (num den : Nat) : Nat :=
  let q := num / den
  let r := num % den
  if 2 * r < den then q
  else if den < 2 * r then q + 1
  else if q % 2 = 0 then q else q + 1

/-- A magnitude counted in units of the last place, with the point `places` digits from the right. -/
def placePoint (places units : Nat) : List Char :=
  if places = 0 then digits units
  else digits (units / Nat.pow 10 places) ++ '.' :: padded places (units % Nat.pow 10 places)

def fixedChars (places : Nat) : Parts → List Char
  | .nan => ['N', 'a', 'N']
  | .infinite negative => (if negative then ['-'] else []) ++ ['i', 'n', 'f']
  | .finite negative m e =>
    let (num, den) := fraction m e
    (if negative then ['-'] else []) ++ placePoint places (roundDiv (num * Nat.pow 10 places) den)

def fixed (places : Nat) (x : Float) : String := String.ofList (fixedChars places (.of x))

end Vigil.Decimal
