import Vigil.Text.Scan

/-!
# Redaction of secrets

A line that becomes evidence is scrubbed of what looks like a credential. Four rules run one after the
other, each over the result of the one before: bearer tokens, values of named secrets, cloud access
keys, and long hexadecimal strings. Words are compared without regard to case where the rule says so.
-/

namespace Vigil.Redaction

open CharClass

def redacted : List Char := "<REDACTED>".toList

def isTokenChar (c : Char) : Bool :=
  isAsciiAlnum (fold c) || c == '-' || c == '.' || c == '_' || c == '~' || c == '+' || c == '/'

def bearer : Matcher := fun before text =>
  if Scan.opensWord before then
    match Scan.afterFolded? "bearer".toList text with
    | none => none
    | some rest =>
      let blanks := rest.takeWhile isSpace
      let behind := rest.drop blanks.length
      let token := behind.takeWhile isTokenChar
      let pad := (behind.drop token.length).takeWhile (· == '=')
      if blanks = [] ∨ token = [] then none
      else some ⟨6 + blanks.length + token.length + pad.length, "Bearer ".toList ++ redacted⟩
  else none

def isKeyJoint (c : Char) : Bool := c == '_' || c == '-'

def afterApiKey? (text : List Char) : Option (List Char) :=
  match Scan.afterFolded? "api".toList text with
  | none => none
  | some [] => none
  | some (c :: rest) => Scan.afterFolded? "key".toList (if isKeyJoint c then rest else c :: rest)

def afterName? (text : List Char) : Option (List Char) :=
  (afterApiKey? text).or <|
    (Scan.afterFolded? "token".toList text).or <|
      (Scan.afterFolded? "secret".toList text).or (Scan.afterFolded? "password".toList text)

/-- A character of a secret's value: it goes on to the next blank, comma or semicolon. -/
def isValueChar (c : Char) : Bool := !(isSpace c || c == ',' || c == ';')

/-- The whole name of a secret, a colon or an equals sign with any blanks around it, and a value. The name
is kept as it is written. -/
def namedSecret : Matcher := fun before text =>
  if Scan.opensWord before then
    match afterName? text with
    | none => none
    | some rest =>
      let name := text.take (text.length - rest.length)
      let gap := rest.takeWhile isSpace
      match rest.drop gap.length with
      | [] => none
      | sep :: behind =>
        let gap' := behind.takeWhile isSpace
        let value := (behind.drop gap'.length).takeWhile isValueChar
        if Scan.endsWord rest ∧ (sep = ':' ∨ sep = '=') ∧ value ≠ [] then
          some ⟨name.length + gap.length + 1 + gap'.length + value.length, name ++ '=' :: redacted⟩
        else none
  else none

def accessKey : Matcher := fun before text =>
  match text with
  | 'A' :: 'K' :: 'I' :: 'A' :: rest =>
    if Scan.opensWord before ∧ (rest.take 16).length = 16 ∧
        (rest.take 16).all (fun c => isAsciiDigit c || isAsciiUpper c) ∧ Scan.endsWord (rest.drop 16)
    then some ⟨20, "<REDACTED_AWS_KEY>".toList⟩ else none
  | _ => none

def longHex : Matcher := fun before text =>
  let ds := text.takeWhile isHexDigit
  if Scan.opensWord before ∧ 32 ≤ ds.length ∧ Scan.endsWord (text.drop ds.length)
  then some ⟨ds.length, "<REDACTED_HEX>".toList⟩ else none

def rules : List Matcher := [bearer, namedSecret, accessKey, longHex]

def redactChars (line : List Char) : List Char := rules.foldl (fun text m => Scan.replaceAll m text) line

def redact (line : String) : String := String.ofList (redactChars line.toList)

end Vigil.Redaction
