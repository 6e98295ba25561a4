import Vigil.Text.CharTable

/-!
# Character classes

The classes that line patterns and quoting are written with. Word, digit and space follow the Unicode
properties; the hexadecimal classes are ASCII. Letter comparison is by simple case folding, in which
two characters outside ASCII fold into it: the long s (U+017F) and the kelvin sign (U+212A).
-/

namespace Vigil.CharClass

def inRanges (ranges : List (Nat × Nat)) (n : Nat) : Bool :=
  ranges.any fun r => r.1 ≤ n && n ≤ r.2

def isAsciiDigit (c : Char) : Bool := '0' ≤ c && c ≤ '9'

def isAsciiUpper (c : Char) : Bool := 'A' ≤ c && c ≤ 'Z'

def isAsciiLower (c : Char) : Bool := 'a' ≤ c && c ≤ 'z'

def isAsciiAlnum (c : Char) : Bool := isAsciiDigit c || isAsciiUpper c || isAsciiLower c

def isHexDigit (c : Char) : Bool :=
  isAsciiDigit c || ('a' ≤ c && c ≤ 'f') || ('A' ≤ c && c ≤ 'F')

def isWord (c : Char) : Bool :=
  if c.toNat < 0x80 then isAsciiAlnum c || c == '_' else inRanges CharTable.word c.toNat

/-- A decimal digit of any script. -/
def isDigit (c : Char) : Bool :=
  if c.toNat < 0x80 then isAsciiDigit c else inRanges CharTable.digit c.toNat

def isSpace (c : Char) : Bool :=
  if c.toNat < 0x80 then c == ' ' || ('\t' ≤ c && c ≤ '\r') else inRanges CharTable.space c.toNat

def isVisible (c : Char) : Bool :=
  if c.toNat < 0x80 then ' ' ≤ c && c ≤ '~' else inRanges CharTable.visible c.toNat

/-- Simple case folding, as far as ASCII letters are concerned. -/
def fold (c : Char) : Char :=
  if isAsciiUpper c then Char.ofNat (c.toNat + 32)
  else if c == '\u017f' then 's'
  else if c == '\u212a' then 'k'
  else c

end Vigil.CharClass
