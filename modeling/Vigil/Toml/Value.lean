/-!
# TOML values

A document is a table. How a table came about decides which later lines may still add to it, so that is
part of it while the document is being read: a table of a header line is closed to dotted keys, one made
by dotted keys is closed to headers, and an inline table is closed to both.
-/

namespace Vigil.Toml

inductive Origin where
  | header
  | implied
  | dotted
  | inline
  deriving DecidableEq, Repr

inductive Value where
  | string (s : String)
  | integer (i : Int)
  | float (x : Float)
  | boolean (b : Bool)
  /-- A date, a time, or both. Which one it is has no bearing on settings. -/
  | moment
  | array (items : List Value)
  | table (origin : Origin) (entries : List (String × Value))
  | tables (items : List (List (String × Value)))

structure Table where
  origin : Origin := .header
  entries : List (String × Value) := []

namespace Table

def get? (t : Table) (key : String) : Option Value := t.entries.lookup key

def replace (t : Table) (key : String) (v : Value) : Table :=
  { t with entries := t.entries.map fun e => if e.1 = key then (key, v) else e }

def append (t : Table) (key : String) (v : Value) : Table :=
  { t with entries := t.entries ++ [(key, v)] }

def toValue (t : Table) : Value := .table t.origin t.entries

/-- Changes the table at the end of a path. Tables that are missing on the way are made, with `viaDots` by
dotted keys and without by a header. A path may go through the last of a list of tables. -/
def update? (viaDots : Bool) (f : Table → Option Table) : List String → Table → Option Table
  | [], t => f t
  | key :: path, t =>
    match t.get? key with
    | none =>
      (update? viaDots f path ⟨if viaDots then .dotted else .implied, []⟩).map fun u =>
        t.append key u.toValue
    | some (.table origin entries) =>
      if origin = .inline || (viaDots && origin = .header) then none
      else (update? viaDots f path ⟨origin, entries⟩).map fun u => t.replace key u.toValue
    | some (.tables items) =>
      match items.getLast? with
      | none => none
      | some last =>
        (update? viaDots f path ⟨.header, last⟩).map fun u =>
          t.replace key (.tables (items.dropLast ++ [u.entries]))
    | some _ => none

/-- Adds a new key. A table that dotted keys have made takes keys only by dotted keys, and any other table
does not take them that way. -/
def insertHere? (viaDots : Bool) (key : String) (v : Value) (t : Table) : Option Table :=
  if (t.origin = .dotted) ≠ viaDots then none
  else if (t.get? key).isSome then none
  else some (t.append key v)

def insert? (path : List String) (key : String) (v : Value) (t : Table) : Option Table :=
  update? true (insertHere? (!path.isEmpty) key v) path t

def open? (path : List String) (key : String) (t : Table) : Option Table :=
  update? false (fun parent =>
    match parent.get? key with
    | none => some (parent.append key (.table .header []))
    | some (.table .implied entries) => some (parent.replace key (.table .header entries))
    | some _ => none) path t

def openNext? (path : List String) (key : String) (t : Table) : Option Table :=
  update? false (fun parent =>
    match parent.get? key with
    | none => some (parent.append key (.tables [[]]))
    | some (.tables items) => some (parent.replace key (.tables (items ++ [[]])))
    | some _ => none) path t

def insertUnder? (current path : List String) (key : String) (v : Value) (t : Table) : Option Table :=
  update? false (insert? path key v) current t

end Table

end Vigil.Toml
