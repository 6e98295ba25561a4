import Vigil.Proofs.Toml.Integers
import Vigil.Settings.Load

/-!
# Settings from documents

Counts in a document are integers of sixty-four bits, of which one is the sign, although settings have room for
more. `load_fits`: settings from a file hold no greater counts.
-/

namespace Vigil.Settings

open Toml (Table)

/-- A count of sixty-three bits, or a value of another kind. -/
def Kind.Fits : (k : Kind) → k.Value → Prop
  | .count _, n => n < Nat.pow 2 63
  | .real, _ | .mode, _ => True

instance : (k : Kind) → (x : k.Value) → Decidable (k.Fits x)
  | .count _, n => inferInstanceAs (Decidable (n < Nat.pow 2 63))
  | .real, _ | .mode, _ => inferInstanceAs (Decidable True)

def Fits (s : Settings) : Prop := ∀ sec ∈ schema, ∀ f ∈ sec.fields, f.kind.Fits (f.get s)

instance (s : Settings) : Decidable s.Fits := inferInstanceAs (Decidable (∀ sec ∈ schema, _))

variable {s s' : Settings} {sec : Section} {f : Field} {k : Kind} {v : Toml.Value}

theorem fits_default : Fits {} := by decide

theorem Fits.set (h : s.Fits) :
    ∀ sec ∈ schema, ∀ f ∈ sec.fields, ∀ x : f.kind.Value, f.kind.Fits x → (f.set x s).Fits := by
  unfold Fits at *
  simp only [schema, samplingSection, logsSection, cpuSection, memorySection, assessmentSection,
    reapingSection, actionSection, List.forall_mem_cons, List.not_mem_nil, false_imp_iff, implies_true,
    and_true] at *
  obtain ⟨⟨_, _⟩, ⟨_, _, _, _, _, _⟩, ⟨_, _, _⟩, ⟨_, _⟩, ⟨_, _⟩, ⟨_, _, _, _⟩, _⟩ := h
  and_intros <;> intro x hx <;> and_intros <;> assumption

-- ---------------------------------------------------------------------------
-- Reading
-- ---------------------------------------------------------------------------

theorem Kind.read?_fits {x : k.Value} (hv : v.Fits) (h : k.read? v = some x) : k.Fits x := by
  unfold Kind.read? at h
  split at h
  · rename_i width n
    split at h
    · cases h
      cases hv with
      | integer hfits =>
        simp only [Toml.fitsInteger, Bool.and_eq_true, decide_eq_true_eq] at hfits
        exact Int.ofNat_lt.mp hfits.2
    · cases h
  · trivial
  · trivial
  · trivial
  · cases h

theorem Field.read?_fits (hs : s.Fits) (hsec : sec ∈ schema) (hf : f ∈ sec.fields) (hv : v.Fits)
    (h : f.read? v s = some s') : s'.Fits := by
  obtain ⟨x, hx, rfl⟩ := Option.map_eq_some_iff.mp h
  exact hs.set sec hsec f hf x (Kind.read?_fits hv hx)

theorem readPlaced?_fits {fields : List Field} {vs : List Toml.Value} (hs : s.Fits) (hsec : sec ∈ schema)
    (hfields : ∀ f ∈ fields, f ∈ sec.fields) (hvs : ∀ v ∈ vs, v.Fits)
    (h : readPlaced? fields vs s = some s') : s'.Fits := by
  induction fields generalizing s vs with
  | nil =>
    cases h
    exact hs
  | cons f fields ih =>
    cases vs with
    | nil =>
      cases h
      exact hs
    | cons v vs =>
      obtain ⟨hf, hfields⟩ := List.forall_mem_cons.mp hfields
      obtain ⟨hv, hvs⟩ := List.forall_mem_cons.mp hvs
      obtain ⟨t, ht, h⟩ := Option.bind_eq_some_iff.mp h
      exact ih (Field.read?_fits hs hsec hf hv ht) hfields hvs h

theorem foldlM_keeps {α : Type} {step : Settings → α → Option Settings} {as : List α} (hs : s.Fits)
    (hstep : ∀ a ∈ as, ∀ s s' : Settings, s.Fits → step s a = some s' → s'.Fits)
    (h : as.foldlM step s = some s') : s'.Fits := by
  induction as generalizing s with
  | nil =>
    cases h
    exact hs
  | cons a as ih =>
    rw [List.foldlM_cons] at h
    obtain ⟨t, ht, h⟩ := Option.bind_eq_some_iff.mp h
    exact ih (hstep a List.mem_cons_self s t hs ht) (fun b hb => hstep b (List.mem_cons_of_mem _ hb)) h

theorem readNamed?_fits {entries : List (String × Toml.Value)} (hs : s.Fits) (hsec : sec ∈ schema)
    (he : ∀ e ∈ entries, e.2.Fits) (h : readNamed? sec.fields entries s = some s') : s'.Fits := by
  refine foldlM_keeps hs (fun f hf s s' hs h => ?_) h
  split at h
  · rename_i v hlookup
    exact Field.read?_fits hs hsec hf (Table.Fits.get? (t := ⟨.header, entries⟩) he hlookup) h
  · cases h
    exact hs

theorem Section.read?_fits (hs : s.Fits) (hsec : sec ∈ schema) (hv : v.Fits) (h : sec.read? v s = some s') :
    s'.Fits := by
  unfold Section.read? at h
  split at h
  · cases hv with
    | table _ he => exact readNamed?_fits hs hsec he h
  · cases hv with
    | array hvs => exact readPlaced?_fits hs hsec (fun _ hf => hf) hvs h
  · cases hv with
    | tables hitems =>
      refine readPlaced?_fits hs hsec (fun _ hf => hf) (fun v hv => ?_) h
      obtain ⟨entries, hentries, rfl⟩ := List.mem_map.mp hv
      exact .table _ (hitems entries hentries)
  · cases h
    exact hs
  · cases h

theorem ofDocument?_fits {t : Table} (ht : t.Fits) (h : ofDocument? t = some s) : s.Fits := by
  refine foldlM_keeps fits_default (fun sec hsec s s' hs h => ?_) h
  split at h
  · rename_i v hget
    exact Section.read?_fits hs hsec (ht.get? hget) h
  · cases h
    exact hs

theorem check_eq_ok (h : s.check = .ok s') : s' = s ∧ s.Accepted := by
  unfold check at h
  split at h
  · rename_i hnone
    cases h
    exact ⟨rfl, hnone⟩
  · cases h

theorem ofText_fits {path text : String} (h : ofText path text = .ok s) : s.Accepted ∧ s.Fits := by
  unfold ofText at h
  split at h
  · cases h
  · rename_i t hread
    obtain ⟨doc, hdoc, ht⟩ := Option.bind_eq_some_iff.mp hread
    cases hcheck : t.check with
    | error rule =>
      rw [hcheck] at h
      cases h
    | ok u =>
      rw [hcheck] at h
      obtain ⟨rfl, haccepted⟩ := check_eq_ok hcheck
      cases h
      exact ⟨haccepted, ofDocument?_fits (Toml.parse?_fits hdoc) ht⟩

/-- What is loaded breaks no rule, and holds no count of more than sixty-three bits. -/
theorem load_fits {path : String} {file : FileText} (h : load path file = .ok s) : s.Accepted ∧ s.Fits := by
  cases file with
  | ok text => exact ofText_fits h
  | error failure =>
    unfold load at h
    simp only at h
    split at h
    · cases h
      exact ⟨by decide +kernel, fits_default⟩
    · cases h

end Vigil.Settings
