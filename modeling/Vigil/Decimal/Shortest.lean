import Vigil.Decimal.Binary

/-!
# The shortest decimal text of a double

`shortest` finds the fewest decimal digits that read back as the same double and, among the texts of
that length, the one nearest to the exact value; an exact tie goes up. It tries the grids of 1, 2, …, 17
digits in turn and looks on each at the two neighbours of the value.

Two layouts write those digits out: `Layout.plain` never uses an exponent and drops the point of a whole
number, `Layout.tagged` always shows that the number is a double.
-/

namespace Vigil.Decimal

/-- The reals that read as one double, as numerators over the common denominator `den`: the value itself
and the two ends of the interval. The ends belong to it if `closed`. -/
structure Interval where
  low : Nat
  value : Nat
  high : Nat
  den : Nat
  closed : Bool

/-- The interval of `significand * 2 ^ exponent`, in quarters of the unit of its last binary place. Below
a power of two the neighbours are half as far apart. -/
def Interval.of (significand : Nat) (exponent : Int) : Interval :=
  let narrow := significand = hiddenBit ∧ leastExponent < exponent
  let (scale, den) := fraction 1 (exponent - 2)
  { low := (4 * significand - (if narrow then 1 else 2)) * scale
    value := 4 * significand * scale
    high := (4 * significand + 2) * scale
    den
    closed := significand % 2 = 0 }

def Interval.holds (i : Interval) (num den' : Nat) : Bool :=
  let x := num * i.den
  if i.closed then i.low * den' ≤ x && x ≤ i.high * den'
  else i.low * den' < x && x < i.high * den'

def gridUnit (exponent : Int) : Nat × Nat :=
  if 0 ≤ exponent then (Nat.pow 10 exponent.toNat, 1) else (1, Nat.pow 10 (-exponent).toNat)

/-- The multiple of `10 ^ exponent` that reads back and is nearest to the value, a tie going up. -/
def Interval.onGrid? (i : Interval) (exponent : Int) : Option Nat :=
  let (un, ud) := gridUnit exponent
  let below := i.value * ud / (i.den * un)
  let above := below + 1
  let rest := i.value * ud - below * (i.den * un)
  let lowOk := i.holds (below * un) ud
  let highOk := i.holds (above * un) ud
  if lowOk && highOk then some (if 2 * rest < i.den * un then below else above)
  else if lowOk then some below
  else if highOk then some above
  else none

def magnitude (num den : Nat) : Int :=
  if den ≤ num then ((digits (num / den)).length : Int)
  else
    let k := (digits (den / num)).length
    -- `10 ^ (k - 1) ≤ den / num`, so the value is at most `10 ^ (1 - k)`
    if num * Nat.pow 10 (k - 1) = den then 2 - (k : Int) else 1 - (k : Int)

def Interval.firstHit (i : Interval) (top : Int) : Nat → Nat → Nat × Int
  | 0, _ => (0, 0)
  | fuel + 1, n =>
    match i.onGrid? (top - n) with
    | some d => (d, top - n)
    | none => i.firstHit top fuel (n + 1)

def stripZeros : Nat → Nat → Int → Nat × Int
  | 0, d, e => (d, e)
  | fuel + 1, d, e => if d ≠ 0 ∧ d % 10 = 0 then stripZeros fuel (d / 10) (e + 1) else (d, e)

def shortest (significand : Nat) (exponent : Int) : Nat × Int :=
  if significand = 0 then (0, 0)
  else
    let i := Interval.of significand exponent
    let (d, e) := i.firstHit (magnitude i.value i.den) 20 1
    stripZeros 20 d e

structure Layout where
  wholePoint : Bool
  exponentFrom : Option (Int × Int)

def Layout.plain : Layout := ⟨false, none⟩

/-- Positional from 0.0001 to below 10^16, with an exponent outside. -/
def Layout.tagged : Layout := ⟨true, some (-4, 16)⟩

def positional (wholePoint : Bool) (ds : List Char) (e : Int) : List Char :=
  let point : Int := ds.length + e
  if 0 ≤ e then
    ds ++ List.replicate e.toNat '0' ++ (if wholePoint then ['.', '0'] else [])
  else if 0 < point then ds.take point.toNat ++ '.' :: ds.drop point.toNat
  else '0' :: '.' :: (List.replicate (-point).toNat '0' ++ ds)

def scientific (ds : List Char) (e : Int) : List Char :=
  let power : Int := e + ds.length - 1
  let mantissa := match ds with
    | [] => []
    | [d] => [d]
    | d :: rest => d :: '.' :: rest
  mantissa ++ 'e' :: (if power < 0 then ['-'] else []) ++ digits power.natAbs

def Layout.write (l : Layout) (d : Nat) (e : Int) : List Char :=
  let ds := digits d
  let power : Int := e + ds.length - 1
  match l.exponentFrom with
  | some (low, high) =>
    if d ≠ 0 ∧ (power < low ∨ high ≤ power) then scientific ds e else positional l.wholePoint ds e
  | none => positional l.wholePoint ds e

def Layout.chars (l : Layout) : Parts → List Char
  | .nan => ['N', 'a', 'N']
  | .infinite negative => (if negative then ['-'] else []) ++ ['i', 'n', 'f']
  | .finite negative m e =>
    let (d, k) := shortest m e
    (if negative then ['-'] else []) ++ l.write d k

def Layout.text (l : Layout) (x : Float) : String := String.ofList (l.chars (.of x))

end Vigil.Decimal
