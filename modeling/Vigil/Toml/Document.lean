import Vigil.Toml.Scalar

/-!
# TOML documents

Keys, values and the lines of a document. The nesting of arrays and inline tables and the length of a
dotted key are limited.
-/

namespace Vigil.Toml

open CharClass

/-- Nesting, and the parts of a key, stay below this. -/
def depthLimit : Nat := 80

/-! ## Keys -/

def isBareKeyChar (c : Char) : Bool := isAsciiAlnum c || c == '_' || c == '-'

def keyPart : Reader String := fun cs =>
  match cs with
  | '"' :: _ => lineString cs
  | '\'' :: _ => lineString cs
  | _ =>
    let name := cs.takeWhile isBareKeyChar
    if name = [] then none else some (String.ofList name, cs.drop name.length)

def keyParts : Nat → List Char → Option (List String × List Char)
  | 0, _ => none
  | fuel + 1, cs =>
    match keyPart (skipBlanks cs) with
    | none => none
    | some (part, rest) =>
      match skipBlanks rest with
      | '.' :: more => (keyParts fuel more).map fun (parts, rest) => (part :: parts, rest)
      | rest => some ([part], rest)

def key : Reader (List String × String) := fun cs =>
  match keyParts (cs.length + 1) cs with
  | none => none
  | some (parts, rest) =>
    match parts.getLast? with
    | some last => if parts.length < depthLimit then some ((parts.dropLast, last), rest) else none
    | none => none

/-! ## Blank parts -/

def skipComment (cs : List Char) : List Char :=
  match cs with
  | '#' :: rest => rest.dropWhile isText
  | _ => cs

def lineEnd? (cs : List Char) : Option (List Char) :=
  match skipComment (skipBlanks cs) with
  | [] => some []
  | rest => newline? rest

def skipLines : Nat → List Char → List Char
  | 0, cs => cs
  | fuel + 1, cs =>
    let rest := skipComment (skipBlanks cs)
    match newline? rest with
    | some rest => skipLines fuel rest
    | none => rest

def skipFiller (cs : List Char) : List Char := skipLines (cs.length + 1) cs

/-! ## Values -/

mutual

def value : Nat → Nat → List Char → Option (Value × List Char)
  | 0, _, _ => none
  | fuel + 1, depth, cs =>
    match cs with
    | [] => none
    | c :: rest =>
      if c = '"' ∨ c = '\'' then (string cs).map fun (s, rest) => (.string s, rest)
      else if c = '[' then
        if depth + 1 < depthLimit then
          (items fuel (depth + 1) rest).map fun (xs, rest) => (.array xs, rest)
        else none
      else if c = '\x7b' then
        if depth + 1 < depthLimit then
          (pairs fuel (depth + 1) ⟨.inline, []⟩ rest).map fun (t, rest) => (t.toValue, rest)
        else none
      else if c = 't' then (after? "true".toList cs).map fun rest => (.boolean true, rest)
      else if c = 'f' then (after? "false".toList cs).map fun rest => (.boolean false, rest)
      else if c = 'i' ∨ c = 'n' then (namedFloat cs).map fun (x, rest) => (.float x, rest)
      else if c = '+' ∨ c = '-' ∨ isAsciiDigit c then number cs
      else none

def items : Nat → Nat → List Char → Option (List Value × List Char)
  | 0, _, _ => none
  | fuel + 1, depth, cs =>
    match skipFiller cs with
    | ']' :: rest => some ([], rest)
    | cs =>
      match value fuel depth cs with
      | none => none
      | some (v, rest) =>
        match skipFiller rest with
        | ',' :: rest => (items fuel depth rest).map fun (vs, rest) => (v :: vs, rest)
        | ']' :: rest => some ([v], rest)
        | _ => none

/-- The rest of an inline table, added to what it holds so far. No comma may follow the last pair. -/
def pairs : Nat → Nat → Table → List Char → Option (Table × List Char)
  | 0, _, _, _ => none
  | fuel + 1, depth, t, cs =>
    match skipBlanks cs, t.entries with
    | '\x7d' :: rest, [] => some (t, rest)
    | cs, _ =>
      match key cs with
      | some ((path, last), '=' :: rest) =>
        match value fuel depth (skipBlanks rest) with
        | none => none
        | some (v, rest) =>
          match t.insert? path last v, skipBlanks rest with
          | some t, ',' :: rest => pairs fuel depth t rest
          | some t, '\x7d' :: rest => some (t, rest)
          | _, _ => none
      | _ => none

end

/-! ## Lines -/

structure Draft where
  root : Table := {}
  current : List String := []

def pairLine (d : Draft) (cs : List Char) : Option (Draft × List Char) :=
  match key cs with
  | some ((path, last), '=' :: rest) =>
    match value (rest.length + 1) 0 (skipBlanks rest) with
    | none => none
    | some (v, rest) =>
      match lineEnd? rest, d.root.insertUnder? d.current path last v with
      | some rest, some root => some ({ d with root }, rest)
      | _, _ => none
  | _ => none

def headerLine (d : Draft) : List Char → Option (Draft × List Char)
  | '[' :: '[' :: cs =>
    match key cs with
    | some ((path, last), ']' :: ']' :: rest) =>
      match lineEnd? rest, d.root.openNext? path last with
      | some rest, some root => some (⟨root, path ++ [last]⟩, rest)
      | _, _ => none
    | _ => none
  | '[' :: cs =>
    match key cs with
    | some ((path, last), ']' :: rest) =>
      match lineEnd? rest, d.root.open? path last with
      | some rest, some root => some (⟨root, path ++ [last]⟩, rest)
      | _, _ => none
    | _ => none
  | _ => none

def lines : Nat → Draft → List Char → Option Table
  | 0, _, _ => none
  | fuel + 1, d, cs =>
    match skipBlanks cs with
    | [] => some d.root
    | '#' :: rest =>
      match lineEnd? ('#' :: rest) with
      | some rest => lines fuel d rest
      | none => none
    | '[' :: rest =>
      match headerLine d ('[' :: rest) with
      | some (d, rest) => lines fuel d rest
      | none => none
    | cs =>
      match newline? cs with
      | some rest => lines fuel d rest
      | none =>
        match pairLine d cs with
        | some (d, rest) => lines fuel d rest
        | none => none

def byteOrderMark : Char := '\ufeff'

def parse? (text : String) : Option Table :=
  let cs := match text.toList with
    | c :: rest => if c = byteOrderMark then rest else c :: rest
    | [] => []
  lines (cs.length + 1) {} cs

end Vigil.Toml
