import Vigil.Settings.Schema
import Vigil.Toml.Value

/-!
# Settings from a document

What a document leaves out keeps its default, and keys that are not in the schema are ignored. A section
is a table, or an array that starts with the values in the order of the schema. A section written as a
date or a time sets nothing.
-/

namespace Vigil.Settings

def isHollow : Toml.Value → Bool
  | .array [] | .table _ [] | .tables [] => true
  | _ => false

def modeOfName? : String → Option ActionMode
  | "kill" => some .kill
  | "observe" => some .observe
  | _ => none

/-- A mode is its name, or a table in which the name is the only key and holds nothing. -/
def modeOf? : Toml.Value → Option ActionMode
  | .string name => modeOfName? name
  | .table _ [(name, v)] => if isHollow v then modeOfName? name else none
  | _ => none

/-- Whole numbers may stand for doubles, but not the other way round. -/
def Kind.read? : (k : Kind) → Toml.Value → Option k.Value
  | .count width, .integer (.ofNat n) => if n < Nat.pow 2 width then some n else none
  | .real, .integer i => some (.ofInt i)
  | .real, .float x => some x
  | .mode, v => modeOf? v
  | _, _ => none

def Field.read? (f : Field) (v : Toml.Value) (s : Settings) : Option Settings :=
  (f.kind.read? v).map fun x => f.set x s

/-- Values by place. There may be fewer of them than fields; what stands after the last field is not
read. -/
def readPlaced? : List Field → List Toml.Value → Settings → Option Settings
  | [], _, s => some s
  | _, [], s => some s
  | f :: fs, v :: vs, s => (f.read? v s).bind (readPlaced? fs vs)

def readNamed? (fields : List Field) (entries : List (String × Toml.Value)) (s : Settings) :
    Option Settings :=
  fields.foldlM (fun s f =>
    match entries.lookup f.name with
    | some v => f.read? v s
    | none => some s) s

def Section.read? (sec : Section) : Toml.Value → Settings → Option Settings
  | .table _ entries, s => readNamed? sec.fields entries s
  | .array items, s => readPlaced? sec.fields items s
  | .tables items, s => readPlaced? sec.fields (items.map (.table .header)) s
  | .moment, s => some s
  | _, _ => none

def ofDocument? (t : Toml.Table) : Option Settings :=
  schema.foldlM (fun s sec =>
    match t.get? sec.name with
    | some v => sec.read? v s
    | none => some s) {}

end Vigil.Settings
