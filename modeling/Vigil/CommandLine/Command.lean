import Vigil.CommandLine.Options

/-!
# Commands

What a command line asks for: to run a workload under watch, to check a settings file, or to list recorded
incidents. The workload stands behind a double dash and is taken word for word.
-/

namespace Vigil.CommandLine

def defaultConfig : String := "warden.toml"

structure RunOptions where
  config : String := defaultConfig
  observe : Bool := false
  statusFile : Option String := none
  db : Option String := none
  workload : List String
  deriving DecidableEq, Repr

inductive Command where
  | run (o : RunOptions)
  | checkConfig (path : String)
  | incidents (db : String) (limit : Nat)
  deriving DecidableEq, Repr

def commonSpecs : List OptionSpec :=
  [⟨"verbose", some 'v', .flag⟩, ⟨"quiet", some 'q', .flag⟩, ⟨"help", some 'h', .help⟩]

def globalSpecs : List OptionSpec := commonSpecs ++ [⟨"version", some 'V', .version⟩]

def configSpec : OptionSpec := ⟨"config", some 'c', .path⟩

def dbSpec : OptionSpec := ⟨"db", none, .path⟩

def runSpecs : List OptionSpec :=
  commonSpecs ++ [configSpec, ⟨"observe", none, .flag⟩, ⟨"status-file", none, .path⟩, dbSpec]

def checkSpecs : List OptionSpec := commonSpecs ++ [configSpec]

def incidentsSpecs : List OptionSpec := commonSpecs ++ [dbSpec, ⟨"limit", none, .count⟩]

def defaultLimit : Nat := 20

/-- A workload needs a double dash in front of it and at least one word. -/
def runCommand (r : Remainder) : Except Stop Command :=
  if r.escaped ∧ r.words ≠ [] then
    .ok <| .run {
      config := (r.found.lookup "config").getD defaultConfig
      observe := (r.found.lookup "observe").isSome
      statusFile := r.found.lookup "status-file"
      db := r.found.lookup "db"
      workload := r.words }
  else .error .misuse

def checkCommand (r : Remainder) : Except Stop Command :=
  if r.words = [] then .ok (.checkConfig ((r.found.lookup "config").getD defaultConfig))
  else .error .misuse

def incidentsCommand (r : Remainder) : Except Stop Command :=
  match r.words, r.found.lookup "db" with
  | [], some db => .ok (.incidents db (((r.found.lookup "limit").bind count?).getD defaultLimit))
  | _, _ => .error .misuse

def commandNames : List String := ["run", "check-config", "incidents", "help"]

def helpStop : List String → Stop
  | [] => .help
  | [name] => if name ∈ commandNames then .help else .misuse
  | _ => .misuse

def commandOf : List String → Except Stop Command
  | "run" :: rest => (readOptions runSpecs none [] rest).bind runCommand
  | "check-config" :: rest => (readOptions checkSpecs none [] rest).bind checkCommand
  | "incidents" :: rest => (readOptions incidentsSpecs none [] rest).bind incidentsCommand
  | "help" :: rest => .error (helpStop rest)
  | _ => .error .misuse

def Command.ofWords (words : List String) : Except Stop Command :=
  (readOptions globalSpecs none [] words).bind fun r =>
    if r.escaped then .error .misuse else commandOf r.words

end Vigil.CommandLine
