import Vigil.Toml.Document

/-!
# The integers of a document

An integer of more than sixty-four bits is refused as it is read. `parse?_fits`: none is anywhere in a document
that is well formed, however deeply its tables and arrays are nested and in whatever order its lines build them up.
-/

namespace Vigil.Toml

inductive Value.Fits : Value → Prop
  | string (s : String) : Fits (.string s)
  | integer {i : Int} (h : fitsInteger i) : Fits (.integer i)
  | float (x : Float) : Fits (.float x)
  | boolean (b : Bool) : Fits (.boolean b)
  | moment : Fits .moment
  | array {items : List Value} (h : ∀ v ∈ items, Fits v) : Fits (.array items)
  | table (origin : Origin) {entries : List (String × Value)} (h : ∀ e ∈ entries, Fits e.2) :
      Fits (.table origin entries)
  | tables {items : List (List (String × Value))} (h : ∀ entries ∈ items, ∀ e ∈ entries, Fits e.2) :
      Fits (.tables items)

def Table.Fits (t : Table) : Prop := ∀ e ∈ t.entries, e.2.Fits

variable {t u : Table} {v : Value} {name : String} {path current : List String} {cs rest : List Char}
  {viaDots : Bool}

-- ---------------------------------------------------------------------------
-- Tables
-- ---------------------------------------------------------------------------

namespace Table

theorem fits_empty (origin : Origin) : Fits ⟨origin, []⟩ := by simp [Fits]

theorem Fits.get? (h : t.Fits) (hv : t.get? name = some v) : v.Fits := by
  obtain ⟨before, after, hentries, -⟩ := List.lookup_eq_some_iff.mp hv
  exact h (name, v) (by simp [hentries])

theorem Fits.toValue (h : t.Fits) : t.toValue.Fits := .table _ h

theorem Fits.append (h : t.Fits) (hv : v.Fits) : (t.append name v).Fits := by
  intro e he
  rcases List.mem_append.mp he with he | he
  · exact h e he
  · rw [List.mem_singleton.mp he]
    exact hv

theorem Fits.replace (h : t.Fits) (hv : v.Fits) : (t.replace name v).Fits := by
  intro e he
  obtain ⟨old, hold, rfl⟩ := List.mem_map.mp he
  split
  · exact hv
  · exact h old hold

/-- What is done at the end of a path leaves everything else in place. -/
theorem Fits.update? {f : Table → Option Table} (hf : ∀ t u, t.Fits → f t = some u → u.Fits) (h : t.Fits)
    (hu : update? viaDots f path t = some u) : u.Fits := by
  induction path generalizing t u with
  | nil => exact hf t u h hu
  | cons name path ih =>
    rw [Table.update?] at hu
    split at hu
    · obtain ⟨w, hw, rfl⟩ := Option.map_eq_some_iff.mp hu
      exact h.append (ih (fits_empty _) hw).toValue
    · rename_i origin entries hget
      split at hu
      · cases hu
      · obtain ⟨w, hw, rfl⟩ := Option.map_eq_some_iff.mp hu
        cases h.get? hget with
        | table _ hentries => exact h.replace (ih (t := ⟨origin, entries⟩) hentries hw).toValue
    · rename_i items hget
      split at hu
      · cases hu
      · rename_i last hlast
        obtain ⟨w, hw, rfl⟩ := Option.map_eq_some_iff.mp hu
        cases h.get? hget with
        | tables hitems =>
          have hlast := List.mem_of_getLast? hlast
          refine h.replace (.tables fun entries hentries => ?_)
          rcases List.mem_append.mp hentries with hentries | hentries
          · exact hitems entries (List.dropLast_subset items hentries)
          · rw [List.mem_singleton.mp hentries]
            exact ih (t := ⟨.header, last⟩) (hitems last hlast) hw
    · cases hu

theorem Fits.insert? (h : t.Fits) (hv : v.Fits) (hu : t.insert? path name v = some u) : u.Fits := by
  refine h.update? (fun t u h hu => ?_) hu
  unfold insertHere? at hu
  split at hu
  · cases hu
  · split at hu
    · cases hu
    · cases hu
      exact h.append hv

theorem Fits.insertUnder? (h : t.Fits) (hv : v.Fits) (hu : t.insertUnder? current path name v = some u) :
    u.Fits :=
  h.update? (fun _ _ h hu => h.insert? hv hu) hu

theorem Fits.open? (h : t.Fits) (hu : t.open? path name = some u) : u.Fits := by
  refine h.update? (fun t u h hu => ?_) hu
  split at hu
  · cases hu
    exact h.append (fits_empty .header).toValue
  · rename_i entries hget
    cases hu
    cases h.get? hget with
    | table _ hentries => exact h.replace (.table _ hentries)
  · cases hu

theorem Fits.openNext? (h : t.Fits) (hu : t.openNext? path name = some u) : u.Fits := by
  refine h.update? (fun t u h hu => ?_) hu
  split at hu
  · cases hu
    exact h.append (.tables (by simp))
  · rename_i items hget
    cases hu
    cases h.get? hget with
    | tables hitems =>
      refine h.replace (.tables fun entries hentries => ?_)
      rcases List.mem_append.mp hentries with hentries | hentries
      · exact hitems entries hentries
      · rw [List.mem_singleton.mp hentries]
        simp
  · cases hu

end Table

-- ---------------------------------------------------------------------------
-- Values
-- ---------------------------------------------------------------------------

theorem fits_of_checked {i j : Int} (h : (if fitsInteger i then some (i, rest) else none) = some (j, cs)) :
    fitsInteger j := by
  obtain ⟨hfits, hi⟩ := Option.ite_none_right_eq_some.mp h
  rw [← (Prod.mk.inj (Option.some.inj hi)).1]
  exact hfits

theorem radixDigits_fits {base : Nat} {p : Char → Bool} {i : Int}
    (h : radixDigits base p cs = some (i, rest)) : fitsInteger i := by
  unfold radixDigits at h
  split at h
  · cases h
  · exact fits_of_checked h

theorem integer_fits {i : Int} (h : integer cs = some (i, rest)) : fitsInteger i := by
  unfold integer at h
  split at h
  · exact radixDigits_fits h
  · exact radixDigits_fits h
  · exact radixDigits_fits h
  · simp only at h
    split at h
    · cases h
    · exact fits_of_checked h

theorem number_fits (h : number cs = some (v, rest)) : v.Fits := by
  unfold number at h
  split at h
  · cases h
    exact .moment
  · split at h
    · cases h
      exact .float _
    · obtain ⟨⟨i, rest⟩, hi, hv⟩ := Option.map_eq_some_iff.mp h
      cases hv
      exact .integer (integer_fits hi)

/-- What the three readers keep to, as far as their fuel goes. -/
structure ReadersFit (fuel : Nat) : Prop where
  value : ∀ {depth cs v rest}, value fuel depth cs = some (v, rest) → v.Fits
  items : ∀ {depth cs vs rest}, items fuel depth cs = some (vs, rest) → ∀ v ∈ vs, v.Fits
  pairs : ∀ {depth t cs u rest}, Table.Fits t → pairs fuel depth t cs = some (u, rest) → u.Fits

variable {fuel depth : Nat}

theorem value_fits (ih : ReadersFit fuel) (h : value (fuel + 1) depth cs = some (v, rest)) :
    v.Fits := by
  cases cs with
  | nil => cases h
  | cons c more =>
    rw [value] at h
    split at h
    · obtain ⟨⟨text, _⟩, -, hv⟩ := Option.map_eq_some_iff.mp h
      cases hv
      exact .string text
    split at h
    · split at h
      · obtain ⟨⟨vs, _⟩, hvs, hv⟩ := Option.map_eq_some_iff.mp h
        cases hv
        exact .array (ih.items hvs)
      · cases h
    split at h
    · split at h
      · obtain ⟨⟨u, _⟩, hu, hv⟩ := Option.map_eq_some_iff.mp h
        cases hv
        exact (ih.pairs (Table.fits_empty .inline) hu).toValue
      · cases h
    split at h
    · obtain ⟨_, -, hv⟩ := Option.map_eq_some_iff.mp h
      cases hv
      exact .boolean true
    split at h
    · obtain ⟨_, -, hv⟩ := Option.map_eq_some_iff.mp h
      cases hv
      exact .boolean false
    split at h
    · obtain ⟨⟨x, _⟩, -, hv⟩ := Option.map_eq_some_iff.mp h
      cases hv
      exact .float x
    split at h
    · exact number_fits h
    · cases h

theorem items_fit (ih : ReadersFit fuel) {vs : List Value}
    (h : items (fuel + 1) depth cs = some (vs, rest)) : ∀ v ∈ vs, v.Fits := by
  rw [items] at h
  split at h
  · cases h
    simp
  split at h
  · cases h
  rename_i v _ hv
  split at h
  · obtain ⟨⟨more, _⟩, hmore, hvs⟩ := Option.map_eq_some_iff.mp h
    cases hvs
    exact List.forall_mem_cons.mpr ⟨ih.value hv, ih.items hmore⟩
  · cases h
    exact List.forall_mem_singleton.mpr (ih.value hv)
  · cases h

theorem pairs_fit (ih : ReadersFit fuel) (ht : t.Fits)
    (h : pairs (fuel + 1) depth t cs = some (u, rest)) : u.Fits := by
  rw [pairs] at h
  split at h
  · cases h
    exact ht
  split at h
  · split at h
    · cases h
    rename_i v _ hv
    split at h
    · rename_i hinsert _
      exact ih.pairs (ht.insert? (ih.value hv) hinsert) h
    · rename_i hinsert _
      cases h
      exact ht.insert? (ih.value hv) hinsert
    · cases h
  · cases h

theorem readers_fit (fuel : Nat) : ReadersFit fuel := by
  induction fuel with
  | zero => exact ⟨nofun, nofun, fun _ => nofun⟩
  | succ fuel ih => exact ⟨value_fits ih, items_fit ih, pairs_fit ih⟩

-- ---------------------------------------------------------------------------
-- Documents
-- ---------------------------------------------------------------------------

variable {d d' : Draft}

theorem pairLine_fits (hd : d.root.Fits) (h : pairLine d cs = some (d', rest)) : d'.root.Fits := by
  unfold pairLine at h
  split at h
  · split at h
    · cases h
    rename_i v _ hv
    split at h
    · rename_i hinsert
      cases h
      exact hd.insertUnder? ((readers_fit _).value hv) hinsert
    · cases h
  · cases h

theorem headerLine_fits (hd : d.root.Fits) (h : headerLine d cs = some (d', rest)) : d'.root.Fits := by
  unfold headerLine at h
  split at h
  · split at h
    · split at h
      · rename_i hopen
        cases h
        exact hd.openNext? hopen
      · cases h
    · cases h
  · split at h
    · split at h
      · rename_i hopen
        cases h
        exact hd.open? hopen
      · cases h
    · cases h
  · cases h

theorem lines_fits (hd : d.root.Fits) (h : lines fuel d cs = some t) : t.Fits := by
  induction fuel generalizing d cs with
  | zero => cases h
  | succ fuel ih =>
    rw [lines] at h
    split at h
    · cases h
      exact hd
    · split at h
      · exact ih hd h
      · cases h
    · split at h
      · rename_i hheader
        exact ih (headerLine_fits hd hheader) h
      · cases h
    · split at h
      · exact ih hd h
      · split at h
        · rename_i hpair
          exact ih (pairLine_fits hd hpair) h
        · cases h

theorem parse?_fits {text : String} (h : parse? text = some t) : t.Fits :=
  lines_fits (Table.fits_empty .header) h

end Vigil.Toml
