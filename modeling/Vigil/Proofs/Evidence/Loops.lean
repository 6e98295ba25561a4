import Vigil.Evidence.Tracked
import Vigil.Proofs.Evidence.Groups
import Vigil.Proofs.Settings.Limits

/-!
# Windows that loop

A log window `Looping` is full of lines of one shape, less than half of them with a progress marker.
`Looping.isLoopEvidence`: under accepted settings it always counts as evidence of a loop, whether as an
exact or as a fuzzy one, and whatever stands in place of the numbers of its lines.
-/

namespace Vigil

namespace Repetition

variable {κ : Type} [DecidableEq κ] {s : Settings.Logs} {window : Ring (Fingerprint κ)}
  {lines : List (Fingerprint κ)}

/-- The window is full, its lines have one shape, and fewer than half of them tell of progress. -/
structure Looping (s : Settings.Logs) (window : Ring (Fingerprint κ)) : Prop where
  full : isFull s window
  alike : ∀ f ∈ window.values, ∀ g ∈ window.values, f.shape = g.shape
  unmarked : 2 * (window.values.filter (·.progress)).length < window.size

instance : Decidable (Looping s window) :=
  decidable_of_iff (isFull s window ∧ (∀ f ∈ window.values, ∀ g ∈ window.values, f.shape = g.shape) ∧
    2 * (window.values.filter (·.progress)).length < window.size)
    ⟨fun ⟨hfull, halike, hunmarked⟩ => ⟨hfull, halike, hunmarked⟩,
      fun h => ⟨h.full, h.alike, h.unmarked⟩⟩

theorem halfMarked_alike {shape : κ} (hshape : ∀ f ∈ lines, f.shape = shape)
    (h : 2 * (lines.filter (·.progress)).length < lines.length) : halfMarked lines shape = false := by
  have hmembers : lines.filter (fun f => f.shape = shape) = lines :=
    List.filter_eq_self.mpr fun f hf => decide_eq_true (hshape f hf)
  simp only [halfMarked, hmembers, decide_eq_false_iff_not]
  omega

theorem ofLines_alike {shape : κ} (hne : lines ≠ []) (hlen : lines.length.log2 ≤ 52)
    (hthreshold : s.fuzzyThreshold ≤ 1) (hshape : ∀ f ∈ lines, f.shape = shape)
    (hmarked : 2 * (lines.filter (·.progress)).length < lines.length) :
    (ofLines s lines).isLoopEvidence := by
  have hexact : lines.map (·.exact) ≠ [] := by simpa using hne
  obtain ⟨topExact, htop⟩ := Option.isSome_iff_exists.mp (KeyGroup.dominant?_isSome hexact)
  have hshapes : KeyGroup.dominant? (lines.map (·.shape)) = some ⟨shape, lines.length⟩ := by
    rw [KeyGroup.dominant?_alike (k := shape) (by simpa using hne) (by simpa using hshape)]
    simp
  -- all lines are in the group of the shape, so its share is one and no threshold is above it
  have hshare : s.fuzzyThreshold ≤ Float.ofNat lines.length / Float.ofNat lines.length := by
    rw [Count.ofNat_div_self (List.length_pos_iff.mpr hne) hlen]
    exact hthreshold
  simp only [ofLines, htop, hshapes, hshare, if_true, halfMarked_alike hshape hmarked, Bool.and_false,
    isLoopEvidence]
  split <;> rename_i hverdict
  · rfl
  · rfl
  · split at hverdict <;> cases hverdict

theorem Looping.isLoopEvidence (h : Looping s window) (hlen : window.size.log2 ≤ 52)
    (hthreshold : s.fuzzyThreshold ≤ 1) : (detect s window).isLoopEvidence := by
  have hsize : window.values.length = window.size := by simp [Ring.values, Ring.size]
  have hmarked := h.unmarked
  rw [← hsize] at hlen hmarked
  cases hvalues : window.values with
  | nil => simp [hvalues] at hmarked
  | cons f fs =>
    have hf : f ∈ window.values := hvalues ▸ List.mem_cons_self
    rw [detect, if_pos h.full]
    exact ofLines_alike (List.ne_nil_of_mem hf) hlen hthreshold (fun g hg => h.alike g hg f hf) hmarked

end Repetition

end Vigil
