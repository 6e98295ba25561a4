/-!
# Command-line options

Reading the words of a command line against a table of options. Options stand in front of the words they
are looked for in; a long one is `--name`, a short one a letter behind a dash, and letters may share one
dash. A value follows as the next word, behind an equals sign, or right behind its letter. No option may
be given twice.
-/

namespace Vigil.CommandLine

inductive Stop where
  | help
  | version
  | misuse
  deriving DecidableEq, Repr

inductive OptionKind where
  | flag
  | help
  | version
  | path
  | count
  deriving DecidableEq, Repr

def OptionKind.takesValue : OptionKind → Bool
  | .path | .count => true
  | _ => false

structure OptionSpec where
  long : String
  short : Option Char := none
  kind : OptionKind
  deriving DecidableEq, Repr

abbrev Found := List (String × String)

/-- The number of a text of digits, with a plus sign or not; a minus sign only in front of zeros. -/
def count? (text : String) : Option Nat :=
  let (negative, ds) := match text.toList with
    | '-' :: ds => (true, ds)
    | '+' :: ds => (false, ds)
    | ds => (false, ds)
  if ds = [] ∨ ds.any (!·.isDigit) then none
  else
    let n := ds.foldl (fun n d => n * 10 + (d.toNat - '0'.toNat)) 0
    if n < Nat.pow 2 32 ∧ (!negative ∨ n = 0) then some n else none

def OptionKind.accepts : OptionKind → String → Bool
  | .path, value => value ≠ ""
  | .count, value => (count? value).isSome
  | _, _ => false

def isValue (word : String) : Bool := word = "-" || !word.startsWith "-"

def noteFlag (spec : OptionSpec) (found : Found) : Except Stop Found :=
  match spec.kind with
  | .help => .error .help
  | .version => .error .version
  | _ => if (found.lookup spec.long).isSome then .error .misuse else .ok (found ++ [(spec.long, "")])

def noteValue (spec : OptionSpec) (value : String) (found : Found) : Except Stop Found :=
  if !spec.kind.accepts value ∨ (found.lookup spec.long).isSome then .error .misuse
  else .ok (found ++ [(spec.long, value)])

inductive Word where
  | escape
  | long (name : String) (value : Option String)
  | short (letters : List Char)
  | plain
  deriving DecidableEq, Repr

def Word.of (word : String) : Word :=
  match word.toList with
  | ['-', '-'] => .escape
  | '-' :: '-' :: cs =>
    let name := cs.takeWhile (· ≠ '=')
    .long (String.ofList name)
      (if name.length < cs.length then some (String.ofList (cs.drop (name.length + 1))) else none)
  | '-' :: c :: cs => .short (c :: cs)
  | _ => .plain

/-- What letters behind one dash come to: flags, and perhaps an option at the end that takes the rest as
its value, or has none yet. -/
def noteLetters (specs : List OptionSpec) : List Char → Found → Except Stop (Found × Option OptionSpec)
  | [], found => .ok (found, none)
  | c :: cs, found =>
    match specs.find? (·.short = some c) with
    | none => .error .misuse
    | some spec =>
      if spec.kind.takesValue then
        match cs with
        | [] => .ok (found, some spec)
        | '=' :: value => (noteValue spec (String.ofList value) found).map (·, none)
        | value => (noteValue spec (String.ofList value) found).map (·, none)
      else (noteFlag spec found).bind (noteLetters specs cs)

def noteLong (specs : List OptionSpec) (name : String) (value : Option String) (found : Found) :
    Except Stop (Found × Option OptionSpec) :=
  match specs.find? (·.long = name), value with
  | none, _ => .error .misuse
  | some spec, some value =>
    if spec.kind.takesValue then (noteValue spec value found).map (·, none) else .error .misuse
  | some spec, none =>
    if spec.kind.takesValue then .ok (found, some spec) else (noteFlag spec found).map (·, none)

structure Remainder where
  found : Found
  escaped : Bool
  words : List String
  deriving DecidableEq, Repr

/-- Reads options up to the first word that is none. `pending` waits for its value. -/
def readOptions (specs : List OptionSpec) (pending : Option OptionSpec) (found : Found) :
    List String → Except Stop Remainder
  | [] => if pending.isSome then .error .misuse else .ok ⟨found, false, []⟩
  | word :: rest =>
    match pending with
    | some spec =>
      if isValue word then (noteValue spec word found).bind fun found => readOptions specs none found rest
      else .error .misuse
    | none =>
      match Word.of word with
      | .escape => .ok ⟨found, true, rest⟩
      | .plain => .ok ⟨found, false, word :: rest⟩
      | .long name value =>
        (noteLong specs name value found).bind fun (found, pending) => readOptions specs pending found rest
      | .short letters =>
        (noteLetters specs letters found).bind fun (found, pending) =>
          readOptions specs pending found rest

end Vigil.CommandLine
