import Vigil.Text.CharClass

/-!
# Quoted text

Text between double quotes, as evidence shows an output line. The quote and the backslash are escaped
with a backslash; tab, carriage return, line feed and NUL have short forms; every other character that
is not visible is written by its code point in braces. Everything else stands for itself.
-/

namespace Vigil.Quoted

open CharClass

def encodeChar (c : Char) : List Char :=
  if c = '"' then ['\\', '"']
  else if c = '\\' then ['\\', '\\']
  else if c = '\t' then ['\\', 't']
  else if c = '\r' then ['\\', 'r']
  else if c = '\n' then ['\\', 'n']
  else if c = '\x00' then ['\\', '0']
  else if isVisible c then [c]
  else ['\\', 'u', '\x7b'] ++ Nat.toDigits 16 c.toNat ++ ['\x7d']

def encode (s : String) : String :=
  String.ofList ('"' :: s.toList.flatMap encodeChar ++ ['"'])

end Vigil.Quoted
