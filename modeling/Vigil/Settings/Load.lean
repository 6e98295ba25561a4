import Vigil.Files.Text
import Vigil.Settings.Check
import Vigil.Settings.Decode
import Vigil.Toml.Document

/-!
# Loading settings

From what reading the settings file comes to, to settings that break no rule. A file that does not exist
counts as an empty one.
-/

namespace Vigil.Settings

inductive LoadError where
  | read (path : String) (failure : ReadFailure)
  /-- The text is not TOML, or a value is not of its kind. -/
  | parse (path : String)
  | invalid (rule : Rule)
  deriving DecidableEq, Repr

namespace LoadError

def heading : LoadError → String
  | .read path _ => s!"failed to read config {path}: "
  | .parse path => s!"failed to parse config {path}: "
  | .invalid rule => rule.message

def source? : LoadError → Option String
  | .read _ failure => some failure.message
  | .parse _ => some "TOML parse error"
  | .invalid _ => none

def message (e : LoadError) : String := e.heading ++ e.source?.getD ""

end LoadError

def check (s : Settings) : Except Rule Settings :=
  match s.broken? with
  | none => .ok s
  | some rule => .error rule

def ofText (path text : String) : Except LoadError Settings :=
  match (Toml.parse? text).bind ofDocument? with
  | none => .error (.parse path)
  | some s => s.check.mapError .invalid

def load (path : String) : FileText → Except LoadError Settings
  | .ok text => ofText path text
  | .error failure => if failure = .refused .notFound then .ok {} else .error (.read path failure)

end Vigil.Settings
