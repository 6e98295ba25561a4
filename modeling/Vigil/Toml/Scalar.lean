import Vigil.Decimal.Read
import Vigil.Text.CharClass
import Vigil.Toml.Value

/-!
# TOML scalars

Strings, numbers, dates and times. A reader takes as much of the text as belongs to it and gives the
rest, or fails. Only the ASCII classes of the format count; all characters outside ASCII are allowed in
strings and comments.
-/

namespace Vigil.Toml

open CharClass

abbrev Reader (α : Type) := List Char → Option (α × List Char)

def isBlank (c : Char) : Bool := c == ' ' || c == '\t'

def skipBlanks (cs : List Char) : List Char := cs.dropWhile isBlank

def isText (c : Char) : Bool := c == '\t' || (' ' ≤ c && c != '\x7f')

def newline? : List Char → Option (List Char)
  | '\n' :: rest => some rest
  | '\r' :: '\n' :: rest => some rest
  | _ => none

def after? : List Char → List Char → Option (List Char)
  | [], rest => some rest
  | _ :: _, [] => none
  | w :: ws, c :: cs => if w = c then after? ws cs else none

/-! ## Strings -/

def hexValue (c : Char) : Nat :=
  if isAsciiDigit c then c.toNat - '0'.toNat
  else if isAsciiLower c then c.toNat - 'a'.toNat + 10
  else c.toNat - 'A'.toNat + 10

def ofHex (ds : List Char) : Nat := ds.foldl (fun n d => n * 16 + hexValue d) 0

def codePoint (n : Nat) : Reader Char := fun cs =>
  let ds := cs.take n
  let value := ofHex ds
  if ds.length = n ∧ ds.all isHexDigit ∧ value.isValidChar then
    some (Char.ofNat value, cs.drop n)
  else none

def escape : Reader Char
  | 'b' :: rest => some ('\x08', rest)
  | 't' :: rest => some ('\t', rest)
  | 'n' :: rest => some ('\n', rest)
  | 'f' :: rest => some ('\x0c', rest)
  | 'r' :: rest => some ('\r', rest)
  | '"' :: rest => some ('"', rest)
  | '\\' :: rest => some ('\\', rest)
  | 'u' :: rest => codePoint 4 rest
  | 'U' :: rest => codePoint 8 rest
  | _ => none

def basicTail : Nat → List Char → Option (List Char × List Char)
  | 0, _ => none
  | _ + 1, [] => none
  | fuel + 1, c :: cs =>
    if c = '"' then some ([], cs)
    else if c = '\\' then
      match escape cs with
      | some (e, rest) => (basicTail fuel rest).map fun (s, rest) => (e :: s, rest)
      | none => none
    else if isText c then (basicTail fuel cs).map fun (s, rest) => (c :: s, rest)
    else none

def literalTail : List Char → Option (List Char × List Char)
  | [] => none
  | c :: cs =>
    if c = '\'' then some ([], cs)
    else if isText c then (literalTail cs).map fun (s, rest) => (c :: s, rest)
    else none

def isFence (quote : Char) (cs : List Char) : Bool := cs.take 3 == [quote, quote, quote]

/-- The end of a fenced string, if it is here: three quotes, or up to two more of which the first belong
to the string. -/
def fenceEnd? (quote : Char) (cs : List Char) : Option (List Char × List Char) :=
  let quotes := (cs.takeWhile (· == quote)).length
  if quotes < 3 then none
  else
    let extra := min (quotes - 3) 2
    some (List.replicate extra quote, cs.drop (3 + extra))

def lineJoin? (cs : List Char) : Option (List Char) :=
  match newline? (skipBlanks cs) with
  | none => none
  | some rest => some (skip rest.length rest)
where
  skip : Nat → List Char → List Char
    | 0, cs => cs
    | fuel + 1, cs =>
      match newline? cs with
      | some rest => skip fuel rest
      | none =>
        match cs with
        | c :: rest => if isBlank c then skip fuel rest else cs
        | [] => []

def fencedTail (quote : Char) : Nat → List Char → Option (List Char × List Char)
  | 0, _ => none
  | _ + 1, [] => none
  | fuel + 1, c :: cs =>
    match fenceEnd? quote (c :: cs), newline? (c :: cs) with
    | some r, _ => some r
    | none, some rest => (fencedTail quote fuel rest).map fun (s, rest) => ('\n' :: s, rest)
    | none, none =>
      if c = '\\' ∧ quote = '"' then
        match lineJoin? cs with
        | some rest => fencedTail quote fuel rest
        | none =>
          match escape cs with
          | some (e, rest) => (fencedTail quote fuel rest).map fun (s, rest) => (e :: s, rest)
          | none => none
      else if isText c then (fencedTail quote fuel cs).map fun (s, rest) => (c :: s, rest)
      else none

def lineString : Reader String
  | '"' :: cs => (basicTail (cs.length + 1) cs).map fun (s, rest) => (String.ofList s, rest)
  | '\'' :: cs => (literalTail cs).map fun (s, rest) => (String.ofList s, rest)
  | _ => none

/-- A string of either form. A line end right behind the opening fence does not count. -/
def string : Reader String := fun cs =>
  match cs with
  | quote :: _ =>
    if isFence quote cs then
      let body := cs.drop 3
      let body := (newline? body).getD body
      (fencedTail quote (body.length + 1) body).map fun (s, rest) => (String.ofList s, rest)
    else lineString cs
  | [] => none

/-! ## Numbers -/

def digitGroups (p : Char → Bool) : Reader (List Char) := fun cs =>
  match cs with
  | c :: rest => if p c then some (go [c] rest) else none
  | [] => none
where
  go (acc : List Char) : List Char → List Char × List Char
    | '_' :: d :: rest => if p d then go (d :: acc) rest else (acc.reverse, '_' :: d :: rest)
    | c :: rest => if p c then go (c :: acc) rest else (acc.reverse, c :: rest)
    | [] => (acc.reverse, [])

def ofDigits (ds : List Char) : Nat := ds.foldl (fun n d => n * 10 + hexValue d) 0

def sign : List Char → Option Bool × List Char
  | '+' :: rest => (some false, rest)
  | '-' :: rest => (some true, rest)
  | cs => (none, cs)

def wholeDigits : Reader (List Char)
  | '0' :: rest => some (['0'], rest)
  | cs => digitGroups isAsciiDigit cs

def fitsInteger (i : Int) : Bool := -(Nat.pow 2 63 : Nat) ≤ i && i < (Nat.pow 2 63 : Nat)

def radixDigits (base : Nat) (p : Char → Bool) (cs : List Char) : Option (Int × List Char) :=
  match digitGroups p cs with
  | none => none
  | some (ds, rest) =>
    let i : Int := ds.foldl (fun n d => n * base + hexValue d) 0
    if fitsInteger i then some (i, rest) else none

def integer : Reader Int
  | '0' :: 'x' :: cs => radixDigits 16 isHexDigit cs
  | '0' :: 'o' :: cs => radixDigits 8 (fun c => '0' ≤ c && c ≤ '7') cs
  | '0' :: 'b' :: cs => radixDigits 2 (fun c => c == '0' || c == '1') cs
  | cs =>
    let (negative, cs) := sign cs
    match wholeDigits cs with
    | none => none
    | some (ds, rest) =>
      let n : Int := ofDigits ds
      let i := if negative = some true then -n else n
      if fitsInteger i then some (i, rest) else none

def fractionDigits : List Char → Option (Option (List Char) × List Char)
  | '.' :: cs => (digitGroups isAsciiDigit cs).map fun (ds, rest) => (some ds, rest)
  | cs => some (none, cs)

def exponentPart : List Char → Option (Option Int × List Char)
  | c :: cs =>
    if c = 'e' ∨ c = 'E' then
      let (negative, cs) := sign cs
      (digitGroups isAsciiDigit cs).map fun (ds, rest) =>
        let n : Int := ofDigits ds
        (some (if negative = some true then -n else n), rest)
    else some (none, c :: cs)
  | [] => some (none, [])

/-- A float of digits: it has a fraction, an exponent, or both. One that is too large is refused, unless
it is negative. -/
def decimalFloat : Reader Float := fun cs => do
  let (negative, cs) := sign cs
  let (whole, cs) ← wholeDigits cs
  let (fraction, cs) ← fractionDigits cs
  let (exponent, cs) ← exponentPart cs
  if fraction.isNone ∧ exponent.isNone then none
  else
    let ds := fraction.getD []
    let x := Decimal.nearest (ofDigits (whole ++ ds)) (exponent.getD 0 - ds.length)
    if negative = some true then some (-x, cs)
    else if x.isInf then none
    else some (x, cs)

def namedFloat : Reader Float := fun cs =>
  let (negative, cs) := sign cs
  let signed (x : Float) : Float := if negative = some true then -x else x
  match after? "inf".toList cs, after? "nan".toList cs with
  | some rest, _ => some (signed (1 / 0), rest)
  | _, some rest => some (signed (0 / 0), rest)
  | _, _ => none

def float : Reader Float := fun cs => (decimalFloat cs).or (namedFloat cs)

/-! ## Dates and times -/

def fixedNumber (width low high : Nat) : Reader Nat := fun cs =>
  let ds := cs.take width
  let n := ofDigits ds
  if ds.length = width ∧ ds.all isAsciiDigit ∧ low ≤ n ∧ n ≤ high then some (n, cs.drop width)
  else none

def isLeapYear (y : Nat) : Bool := y % 4 = 0 && (y % 100 ≠ 0 || y % 400 = 0)

def daysInMonth (year month : Nat) : Nat :=
  if month = 2 then (if isLeapYear year then 29 else 28)
  else if month = 4 ∨ month = 6 ∨ month = 9 ∨ month = 11 then 30
  else 31

def date (cs : List Char) : Option (List Char) := do
  let (year, cs) ← fixedNumber 4 0 9999 cs
  let cs ← after? ['-'] cs
  let (month, cs) ← fixedNumber 2 1 12 cs
  let cs ← after? ['-'] cs
  let (day, cs) ← fixedNumber 2 1 31 cs
  if day ≤ daysInMonth year month then some cs else none

def secondFraction : List Char → Option (List Char)
  | '.' :: cs =>
    let ds := cs.takeWhile isAsciiDigit
    if ds = [] then none else some (cs.drop ds.length)
  | cs => some cs

def time (cs : List Char) : Option (List Char) := do
  let (_, cs) ← fixedNumber 2 0 23 cs
  let cs ← after? [':'] cs
  let (_, cs) ← fixedNumber 2 0 59 cs
  let cs ← after? [':'] cs
  let (_, cs) ← fixedNumber 2 0 60 cs
  secondFraction cs

def offset : List Char → Option (List Char)
  | 'Z' :: cs => some cs
  | 'z' :: cs => some cs
  | c :: cs =>
    if c = '+' ∨ c = '-' then do
      let (_, cs) ← fixedNumber 2 0 23 cs
      let cs ← after? [':'] cs
      let (_, cs) ← fixedNumber 2 0 59 cs
      return cs
    else some (c :: cs)
  | [] => some []

def isTimeMark (c : Char) : Bool := c == 'T' || c == 't' || c == ' '

def moment (cs : List Char) : Option (List Char) :=
  match date cs with
  | none => time cs
  | some rest =>
    match rest with
    | mark :: tail => if isTimeMark mark then some (((time tail).bind offset).getD rest) else some rest
    | [] => some []

def number : Reader Value := fun cs =>
  match moment cs with
  | some rest => some (.moment, rest)
  | none =>
    match float cs with
    | some (x, rest) => some (.float x, rest)
    | none => (integer cs).map fun (i, rest) => (.integer i, rest)

end Vigil.Toml
