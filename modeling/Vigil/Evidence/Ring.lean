/-!
# Time-ordered rings

Bounded storage for samples and lines. A ring keeps at most `capacity` entries in time order and, if it
has a greatest age, none older than that. An entry older than the newest one is refused; what has to
give way is always the oldest. Times are milliseconds. The room for all entries is set aside when a ring
is begun, so a capacity beyond all memory cannot be had.
-/

namespace Vigil

structure Stamped (α : Type) where
  time : Nat
  value : α
  deriving DecidableEq, Repr

structure Ring (α : Type) where
  capacity : Nat
  maxAge : Option Nat
  entries : List (Stamped α)
  /-- Something has had to give way since the ring was last empty by choice. -/
  evicted : Bool
  deriving DecidableEq, Repr

namespace Ring

def blockLimit : Nat := 9223372036854775800

def hasRoom (capacity entryBytes : Nat) : Bool := max capacity 1 * entryBytes ≤ blockLimit

def roomMessage : String := "capacity overflow"

def numberBytes : Nat := 24

variable {α : Type}

/-- An empty ring. It has room for one entry at least. -/
def empty (capacity : Nat) (maxAge : Option Nat) : Ring α :=
  { capacity := max capacity 1, maxAge, entries := [], evicted := false }

def size (r : Ring α) : Nat := r.entries.length

def isEmpty (r : Ring α) : Bool := r.entries.isEmpty

def isAtCapacity (r : Ring α) : Bool := r.size == r.capacity

def oldest? (r : Ring α) : Option (Stamped α) := r.entries.head?

def newest? (r : Ring α) : Option (Stamped α) := r.entries.getLast?

def values (r : Ring α) : List α := r.entries.map (·.value)

def prune (r : Ring α) (now : Nat) : Ring α :=
  match r.maxAge with
  | none => r
  | some age =>
    let kept := r.entries.dropWhile fun e => age < now - e.time
    { r with entries := kept, evicted := r.evicted || kept.length != r.entries.length }

def accepts (r : Ring α) (t : Nat) : Bool := r.newest?.all fun e => e.time ≤ t

/-- Appends an entry unless it is older than the newest one. -/
def push (r : Ring α) (t : Nat) (a : α) : Ring α :=
  if r.accepts t then
    let full := r.isAtCapacity
    let kept := if full then r.entries.drop 1 else r.entries
    let grown : Ring α := { r with entries := kept ++ [⟨t, a⟩], evicted := r.evicted || full }
    grown.prune t
  else r

def recent (r : Ring α) (window : Nat) : List (Stamped α) :=
  match r.newest? with
  | none => []
  | some newest => r.entries.filter fun e => newest.time - e.time ≤ window

def clear (r : Ring α) : Ring α := { r with entries := [], evicted := false }

end Ring

end Vigil
