/-!
# JSON values as text

The values that a report is made of, written with one member a line and two blanks for each level.
-/

namespace Vigil.Report

inductive Json where
  | null
  | number (n : Int)
  | string (s : String)
  | object (members : List (String × Json))

namespace Json

def hexDigit (n : Nat) : Char := Char.ofNat (if n < 10 then 48 + n else 87 + n)

/-- A character as it stands in a string. Only quotes, backslashes and control characters are escaped. -/
def escapeChar (c : Char) : List Char :=
  if c = '"' then ['\\', '"']
  else if c = '\\' then ['\\', '\\']
  else if c = '\x08' then ['\\', 'b']
  else if c = '\t' then ['\\', 't']
  else if c = '\n' then ['\\', 'n']
  else if c = '\x0c' then ['\\', 'f']
  else if c = '\r' then ['\\', 'r']
  else if c < ' ' then ['\\', 'u', '0', '0', hexDigit (c.toNat / 16), hexDigit (c.toNat % 16)]
  else [c]

def quote (s : String) : String :=
  String.ofList ('"' :: s.toList.flatMap escapeChar ++ ['"'])

def indent (depth : Nat) : String := String.ofList (List.replicate (2 * depth) ' ')

def braced (depth : Nat) : List String → String
  | [] => "\x7b\x7d"
  | members => "\x7b\n" ++ ",\n".intercalate members ++ "\n" ++ indent depth ++ "\x7d"

mutual

def pretty (depth : Nat) : Json → String
  | .null => "null"
  | .number n => toString n
  | .string s => quote s
  | .object members => braced depth (memberTexts (depth + 1) members)

def memberTexts (depth : Nat) : List (String × Json) → List String
  | [] => []
  | m :: ms => memberText depth m :: memberTexts depth ms

def memberText (depth : Nat) : String × Json → String
  | (name, v) => indent depth ++ quote name ++ ": " ++ pretty depth v

end

end Json

end Vigil.Report
