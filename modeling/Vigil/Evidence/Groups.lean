/-!
# Groups of equal keys

The most frequent key of a list and the number of different ones. Keys are only compared for equality,
and their order in the list alone breaks ties.
-/

namespace Vigil

/-- One of the members of a group of equal keys, and how many there are. -/
structure KeyGroup (κ : Type) where
  key : κ
  count : Nat
  deriving DecidableEq, Repr

namespace KeyGroup

variable {κ : Type} [DecidableEq κ]

def of (keys : List κ) (k : κ) : KeyGroup κ := ⟨k, keys.count k⟩

def lead (keys : List κ) (best : Option (KeyGroup κ)) (k : κ) : Option (KeyGroup κ) :=
  match best with
  | none => some (of keys k)
  | some b => if b.count < keys.count k then some (of keys k) else some b

/-- The most frequent key. Of equally frequent keys the one whose last occurrence is the latest: the
candidates are taken from the end of the list. -/
def dominant? (keys : List κ) : Option (KeyGroup κ) := keys.reverse.foldl (lead keys) none

def distinct (keys : List κ) : Nat := keys.eraseDups.length

end KeyGroup

end Vigil
