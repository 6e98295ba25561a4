import Vigil.Text.CharClass

/-!
# Scanning a line for matches

A `Matcher` looks at the text from one position on and at the character in front of it, and says how
many characters it takes there and what is to stand in their place. `replaceAll` goes through the line
from the left and replaces each match, going on behind it, so matches never overlap.
-/

namespace Vigil

open CharClass

structure Match where
  taken : Nat
  instead : List Char
  deriving DecidableEq, Repr

/-- `m before text` is the match of `text` at its first character, if there is one. -/
abbrev Matcher := Option Char → List Char → Option Match

namespace Scan

/-- Replaces every match from the left. `skip` characters still belong to the last match. -/
def replaceFrom (m : Matcher) (before : Option Char) (skip : Nat) : List Char → List Char
  | [] => []
  | c :: cs =>
    match skip with
    | k + 1 => replaceFrom m (some c) k cs
    | 0 =>
      match m before (c :: cs) with
      | some found => found.instead ++ replaceFrom m (some c) (found.taken - 1) cs
      | none => c :: replaceFrom m (some c) 0 cs

def replaceAll (m : Matcher) (text : List Char) : List Char := replaceFrom m none 0 text

def anyFrom (p : Option Char → List Char → Bool) (before : Option Char) : List Char → Bool
  | [] => false
  | c :: cs => p before (c :: cs) || anyFrom p (some c) cs

def any (p : Option Char → List Char → Bool) (text : List Char) : Bool := anyFrom p none text

def opensWord (before : Option Char) : Bool := !before.any isWord

def endsWord (rest : List Char) : Bool := !rest.head?.any isWord

/-- What is left of the text behind `word`, compared without regard to case. `word` is in lower case. -/
def afterFolded? : List Char → List Char → Option (List Char)
  | [], rest => some rest
  | _ :: _, [] => none
  | w :: ws, c :: cs => if fold c = w then afterFolded? ws cs else none

end Scan

end Vigil
