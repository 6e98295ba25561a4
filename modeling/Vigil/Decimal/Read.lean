/-!
# Reading decimal numbers

The double nearest to `mantissa * 10 ^ exponent`. Exponents far out of range are recognized by size, so
no huge power is ever computed.
-/

namespace Vigil.Decimal

/-- Any decimal with its first digit above this power of ten is infinite, and any with its first digit
below the opposite one is zero. -/
def outOfRange : Int := 400

def nearest (mantissa : Nat) (exponent : Int) : Float :=
  let first : Int := (Nat.toDigits 10 mantissa).length + exponent
  if mantissa = 0 then 0
  else if outOfRange < first then 1 / 0
  else if first < -outOfRange then 0
  else Float.ofScientific mantissa (exponent < 0) exponent.natAbs

end Vigil.Decimal
