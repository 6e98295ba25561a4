import Vigil.Evidence.Ring

/-!
# What a ring holds

A ring never holds more entries than it was made for. `Ring.Holds` is kept by every operation. No operation
looks at the values of the entries: `Ring.map` puts others in their place.
-/

namespace Vigil.Ring

variable {α β : Type} {r : Ring α} {n : Nat}

@[simp] theorem capacity_prune (r : Ring α) (now : Nat) : (r.prune now).capacity = r.capacity := by
  unfold prune
  cases r.maxAge <;> rfl

@[simp] theorem capacity_push (r : Ring α) (t : Nat) (a : α) : (r.push t a).capacity = r.capacity := by
  unfold push
  split
  · simp
  · rfl

theorem size_prune_le (r : Ring α) (now : Nat) : (r.prune now).size ≤ r.size := by
  unfold prune
  cases r.maxAge with
  | none => exact Nat.le_refl _
  | some age => exact (List.dropWhile_suffix _).length_le

theorem size_push_le (hn : 0 < r.capacity) (hr : r.size ≤ r.capacity) (t : Nat) (a : α) :
    (r.push t a).size ≤ r.capacity := by
  unfold push
  split
  · refine Nat.le_trans (size_prune_le _ _) ?_
    by_cases hfull : r.isAtCapacity
    · have hsize : r.entries.length = r.capacity := by simpa [isAtCapacity, size] using hfull
      simp only [size, hfull, if_true, List.length_append, List.length_drop, List.length_singleton]
      omega
    · have hsize : r.entries.length ≠ r.capacity := by simpa [isAtCapacity, size] using hfull
      have hle : r.entries.length ≤ r.capacity := hr
      simp only [size, hfull, if_false, List.length_append, List.length_singleton, Bool.false_eq_true]
      omega
  · exact hr

/-- A ring made for so many entries, of which there is room for one at least. -/
structure Holds (n : Nat) (r : Ring α) : Prop where
  capacity : r.capacity = max n 1
  size : r.size ≤ r.capacity

theorem Holds.size_le (h : r.Holds n) : r.size ≤ max n 1 := h.capacity ▸ h.size

theorem holds_empty (n : Nat) (maxAge : Option Nat) : (empty n maxAge : Ring α).Holds n :=
  ⟨rfl, Nat.zero_le _⟩

theorem Holds.push (h : r.Holds n) (t : Nat) (a : α) : (r.push t a).Holds n where
  capacity := (capacity_push r t a).trans h.capacity
  size := by
    rw [capacity_push]
    refine size_push_le ?_ h.size t a
    rw [h.capacity]
    exact Nat.le_max_right n 1

theorem Holds.prune (h : r.Holds n) (now : Nat) : (r.prune now).Holds n where
  capacity := (capacity_prune r now).trans h.capacity
  size := by
    rw [capacity_prune]
    exact Nat.le_trans (size_prune_le r now) h.size

theorem Holds.clear (h : r.Holds n) : r.clear.Holds n := ⟨h.capacity, Nat.zero_le _⟩

-- ---------------------------------------------------------------------------
-- Other values
-- ---------------------------------------------------------------------------

section
variable (f : α → β) (r : Ring α)

def map (f : α → β) (r : Ring α) : Ring β :=
  { r with entries := r.entries.map fun e => ⟨e.time, f e.value⟩ }

@[simp] theorem values_map : (r.map f).values = r.values.map f := by simp [map, values]

@[simp] theorem size_map : (r.map f).size = r.size := by simp [map, size]

@[simp] theorem isAtCapacity_map : (r.map f).isAtCapacity = r.isAtCapacity := by
  rw [isAtCapacity, isAtCapacity, size_map, map]

@[simp] theorem accepts_map (t : Nat) : (r.map f).accepts t = r.accepts t := by
  rw [accepts, accepts, newest?, newest?, map, List.getLast?_map, Option.all_map]

theorem map_prune (now : Nat) : (r.prune now).map f = (r.map f).prune now := by
  obtain ⟨capacity, maxAge, entries, evicted⟩ := r
  cases maxAge with
  | none => rfl
  | some age =>
    simp only [prune, map, List.dropWhile_map, List.length_map]
    rfl

end

end Vigil.Ring
