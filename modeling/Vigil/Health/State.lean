/-!
# Health states

The eight states a tracked workload can be in. Alarms are sticky: they give way to a more severe state
only. The two states at the end are terminal: nothing follows them.
-/

namespace Vigil

inductive Health where
  | healthy
  | bursty
  | stuck
  | runaway
  | leaking
  | zombie
  | gone
  /-- The group could not be terminated; tracking was abandoned. -/
  | unreapable
  deriving DecidableEq, Repr, Inhabited

namespace Health

def all : List Health :=
  [.healthy, .bursty, .stuck, .runaway, .leaking, .zombie, .gone, .unreapable]

def isSticky : Health → Bool
  | .stuck | .runaway | .leaking | .zombie => true
  | _ => false

def isTerminal : Health → Bool
  | .gone | .unreapable => true
  | _ => false

def severity : Health → Nat
  | .healthy | .bursty => 0
  | .stuck => 1
  | .runaway => 2
  | .leaking => 3
  | .zombie => 4
  | .gone | .unreapable => 5

def name : Health → String
  | .healthy => "healthy"
  | .bursty => "bursty"
  | .stuck => "stuck"
  | .runaway => "runaway"
  | .leaking => "leaking"
  | .zombie => "zombie"
  | .gone => "gone"
  | .unreapable => "unreapable"

def ofName? (s : String) : Option Health := all.find? fun h => h.name == s

end Health

/-- A process and the group it led when tracking began. -/
structure ProcessId where
  pid : Int
  pgid : Int
  deriving DecidableEq, Repr, Inhabited

def ProcessId.text (id : ProcessId) : String := s!"{id.pid}/{id.pgid}"

def ProcessId.json (id : ProcessId) : String :=
  s!"\x7b\"pid\":{id.pid},\"pgid\":{id.pgid}\x7d"

structure Diagnosis where
  process : ProcessId
  source : Health
  target : Health
  evidence : String
  deriving DecidableEq, Repr

end Vigil
