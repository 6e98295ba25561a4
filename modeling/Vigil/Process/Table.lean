import Vigil.Process.Usage

/-!
# The process table

A snapshot of the processes of a system and what is read from it: the tree of a process, with everything
that was once started below it or shares its group, and the live members of a group. Parent links may form
any graph.
-/

namespace Vigil

structure ProcessRow where
  pid : Int
  parent : Int
  group : Int
  ticks : Nat
  residentPages : Nat
  defunct : Bool := false
  deriving DecidableEq, Repr

structure SystemUnits where
  ticksPerSecond : Nat
  pageSize : Nat
  deriving DecidableEq, Repr

namespace ProcessRow

def children (rows : List ProcessRow) (pid : Int) : List Int :=
  (rows.filter fun r => r.parent = pid).map (·.pid)

def waiting (rows : List ProcessRow) (visited : List Int) : Nat :=
  rows.countP fun r => r.parent ∉ visited

theorem waiting_cons {rows : List ProcessRow} {visited : List Int} {pid : Int} (h : pid ∉ visited) :
    waiting rows (pid :: visited) + (children rows pid).length = waiting rows visited := by
  simp only [waiting, children, List.length_map, ← List.countP_eq_length_filter]
  induction rows with
  | nil => rfl
  | cons r rows ih => grind

/-- Visits what is on the stack and everything below it. A process is visited once, so every row puts
at most one entry on the stack. -/
def visit (rows : List ProcessRow) (visited : List Int) : List Int → List Int
  | [] => visited
  | pid :: stack =>
    if pid ∈ visited then visit rows visited stack
    else visit rows (pid :: visited) (children rows pid ++ stack)
termination_by stack => waiting rows visited + stack.length
decreasing_by
  · simp
  · rename_i hnew
    have hwaiting : waiting rows (pid :: visited) + (children rows pid).length = waiting rows visited :=
      waiting_cons hnew
    simp only [List.length_append, List.length_cons]
    omega

def descendants (rows : List ProcessRow) (pid : Int) : List Int := visit rows [] [pid]

def inGroup (rows : List ProcessRow) (pgid : Int) : List Int :=
  (rows.filter fun r => r.group = pgid).map (·.pid)

/-- The rows of everything below `pid` and of the group's members, in the order of the table. -/
def treeMembers (rows : List ProcessRow) (pid pgid : Int) : List ProcessRow :=
  let below := descendants rows pid
  let group := inGroup rows pgid
  rows.filter fun r => r.pid ∈ below || r.pid ∈ group

def usage (u : SystemUnits) (r : ProcessRow) : Usage :=
  { pid := r.pid
    cpuTime := saturate (r.ticks * 1000) / u.ticksPerSecond
    residentBytes := saturate (r.residentPages * u.pageSize) }

end ProcessRow

structure ProcessTable where
  units : SystemUnits
  rows : List ProcessRow
  deriving DecidableEq, Repr

namespace ProcessTable

def live (t : ProcessTable) : List ProcessRow := t.rows.filter fun r => !r.defunct

def treeUsage (t : ProcessTable) (pid pgid : Int) : TreeProbe :=
  if t.live.any fun r => r.pid = pid then
    .ok ((ProcessRow.treeMembers t.live pid pgid).map (·.usage t.units))
  else .error .gone

def groupMembers (t : ProcessTable) (pgid : Int) : GroupProbe :=
  .ok (ProcessRow.inGroup t.live pgid)

/-- What comes of a signal to a group: one without members is no error, but a negative number names no
group at all. -/
def signalGroup (pgid : Int) (s : Signal) : Except ProbeError Unit :=
  if pgid < 0 then
    .error (.unavailable
      s!"failed to send {s.name} to process group {pgid}: EINVAL: Invalid argument")
  else .ok ()

def killed (t : ProcessTable) (pgid : Int) : ProcessTable :=
  { t with rows := t.rows.map fun r => if r.group = pgid then { r with defunct := true } else r }

def collected (t : ProcessTable) (pid : Int) : ProcessTable :=
  { t with rows := t.rows.filter fun r => !(r.pid = pid && r.defunct) }

end ProcessTable

end Vigil
