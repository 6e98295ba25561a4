import Vigil.Decimal.Binary

/-!
# Points in time

A point in universal time and its text in the calendar. A second may have more than a thousand million
nanoseconds: then it is a leap second, and its text counts it as the sixtieth.
-/

namespace Vigil.Report

/-- Seconds since the beginning of 1970 and nanoseconds within the second. -/
structure Instant where
  seconds : Int
  nanos : Nat
  deriving DecidableEq, Repr

structure Date where
  year : Int
  month : Nat
  day : Nat
  deriving DecidableEq, Repr

def daysPerEra : Nat := 146097

def daysToEpoch : Int := 719468

/-- The date so many days after the beginning of 1970, in the calendar with its present leap years. Years
are counted from March on meanwhile, so that a leap day is the last day of its year. -/
def Date.ofDays (days : Int) : Date :=
  let shifted := days + daysToEpoch
  let era := Int.fdiv shifted daysPerEra
  let dayOfEra := (Int.fmod shifted daysPerEra).toNat
  let yearOfEra := (dayOfEra - dayOfEra / 1460 + dayOfEra / 36524 - dayOfEra / 146096) / 365
  let dayOfYear := dayOfEra - (365 * yearOfEra + yearOfEra / 4 - yearOfEra / 100)
  let month := (5 * dayOfYear + 2) / 153
  let year := era * 400 + yearOfEra
  { year := if month < 10 then year else year + 1
    month := if month < 10 then month + 3 else month - 9
    day := dayOfYear - (153 * month + 2) / 5 + 1 }

/-- Four digits; with a sign, and with more digits if need be, outside the years 0 to 9999. -/
def yearText (year : Int) : String :=
  let ds := String.ofList (Decimal.padded 4 year.natAbs)
  if 0 ≤ year ∧ year ≤ 9999 then ds else (if year < 0 then "-" else "+") ++ ds

def twoDigits (n : Nat) : String := String.ofList (Decimal.padded 2 n)

def Date.text (d : Date) : String := s!"{yearText d.year}-{twoDigits d.month}-{twoDigits d.day}"

def nanosPerSecond : Nat := 1000000000

namespace Instant

def after (i : Instant) (ms : Nat) : Instant :=
  let nanos := i.nanos + ms * 1000000
  { seconds := i.seconds + (nanos / nanosPerSecond : Nat), nanos := nanos % nanosPerSecond }

def date (i : Instant) : Date := .ofDays (Int.fdiv i.seconds 86400)

def fraction (i : Instant) : Nat := i.nanos % nanosPerSecond

def secondText (i : Instant) : String :=
  let ofDay := (Int.fmod i.seconds 86400).toNat
  let second := ofDay % 60 + i.nanos / nanosPerSecond
  s!"{i.date.text}T{twoDigits (ofDay / 3600)}:{twoDigits (ofDay / 60 % 60)}:{twoDigits second}"

def fractionText (i : Instant) (places : Nat) : String :=
  String.ofList (Decimal.padded places (i.fraction / Nat.pow 10 (9 - places)))

def milliText (i : Instant) : String := s!"{i.secondText}.{i.fractionText 3}Z"

def text (i : Instant) : String :=
  let n := i.fraction
  if n = 0 then s!"{i.secondText}Z"
  else
    let places := if n % 1000000 = 0 then 3 else if n % 1000 = 0 then 6 else 9
    s!"{i.secondText}.{i.fractionText places}Z"

end Instant

end Vigil.Report
