import Mathlib.Data.List.Basic
import Mathlib.Data.List.TakeWhile
import Vigil.Text.Scan

/-!
# Runs of characters, and words

The longest run of characters of one kind at the beginning of a text, a word there in any letter case, and what
follows them.
-/

namespace Vigil.Scan

open CharClass

variable {f : Char → Bool} {c c' : Char} {text rest run a x y : List Char}

theorem drop_length_takeWhile (f : Char → Bool) (text : List Char) :
    text.drop (text.takeWhile f).length = text.dropWhile f := by
  induction text with
  | nil => rfl
  | cons c cs ih => by_cases h : f c <;> simp [h, ih]

theorem dropWhile_of_head (f : Char → Bool) (h : ¬ text.head?.any f) : text.dropWhile f = text := by
  cases text with
  | nil => rfl
  | cons c cs => exact List.dropWhile_cons_of_neg h

theorem takeWhile_of_head (f : Char → Bool) (h : ¬ text.head?.any f) : text.takeWhile f = [] := by
  cases text with
  | nil => rfl
  | cons c cs => exact List.takeWhile_cons_of_neg h

theorem takeWhile_ne_nil (h : text.head?.any f) : text.takeWhile f ≠ [] := by
  cases text with
  | nil => cases h
  | cons c cs =>
    have hc : f c := h
    rw [List.takeWhile_cons_of_pos hc]
    exact List.cons_ne_nil _ _

theorem head_dropWhile (f : Char → Bool) (text : List Char) : ¬ (text.dropWhile f).head?.any f := by
  have hstop := List.head?_dropWhile_not f text
  cases h : (text.dropWhile f).head? with
  | none => simp
  | some c => simpa [h] using hstop

theorem takeWhile_run (hrun : ∀ c ∈ run, f c) (hx : ¬ x.head?.any f) : (run ++ x).takeWhile f = run := by
  rw [List.takeWhile_append_of_pos hrun, takeWhile_of_head f hx, List.append_nil]

/-- What stands in front of the first of a character is told apart from what stands behind it. -/
theorem append_stop_inj {b y : List Char} (ha : c ∉ a) (hb : c ∉ b) (h : a ++ c :: x = b ++ c :: y) :
    a = b ∧ x = y := by
  have hother {a : List Char} (ha : c ∉ a) : ∀ d ∈ a, d != c := fun d hd => by
    simpa using ne_of_mem_of_not_mem hd ha
  have hrun := congrArg (List.takeWhile (· != c)) h
  rw [takeWhile_run (hother ha) (by simp), takeWhile_run (hother hb) (by simp)] at hrun
  subst hrun
  exact ⟨rfl, List.tail_eq_of_cons_eq (List.append_cancel_left h)⟩

theorem takeWhile_append_of_head (hx : ¬ x.head?.any f) (a : List Char) : (a ++ x).takeWhile f = a.takeWhile f := by
  rw [List.takeWhile_append, takeWhile_of_head f hx, List.append_nil]
  split
  · rename_i hlength
    exact ((List.takeWhile_prefix f).eq_of_length hlength).symm
  · rfl

/-- A run that ends within a text does not depend on what follows, as long as that would go on with it. -/
theorem takeWhile_of_length_le (hc : f c) (h : ((a ++ c :: x).takeWhile f).length ≤ a.length) (y : List Char) :
    (a ++ y).takeWhile f = (a ++ c :: x).takeWhile f := by
  rw [List.takeWhile_append] at h ⊢
  split at h
  · simp only [List.takeWhile_cons_of_pos hc, List.length_append, List.length_cons] at h
    omega
  · rename_i hshort
    rw [if_neg hshort, List.takeWhile_append, if_neg hshort]

theorem takeWhile_of_stop (hc : ¬ f c) (hc' : ¬ f c') (a x y : List Char) :
    (a ++ c :: x).takeWhile f = (a ++ c' :: y).takeWhile f := by
  rw [List.takeWhile_append, List.takeWhile_append, List.takeWhile_cons_of_neg hc, List.takeWhile_cons_of_neg hc']

theorem length_takeWhile_le (hc : ¬ f c) (a x : List Char) : ((a ++ c :: x).takeWhile f).length ≤ a.length := by
  rw [takeWhile_of_stop hc hc a x []]
  induction a with
  | nil => simp [hc]
  | cons d a ih =>
    by_cases hd : f d
    · rw [List.cons_append, List.takeWhile_cons_of_pos hd]
      exact Nat.succ_le_succ ih
    · rw [List.cons_append, List.takeWhile_cons_of_neg hd]
      exact Nat.zero_le _

/-- A run that goes beyond a text goes on as one of what follows. -/
theorem takeWhile_of_lt_length (h : a.length < ((a ++ x).takeWhile f).length) :
    (a ++ x).takeWhile f = a ++ x.takeWhile f := by
  rw [List.takeWhile_append] at h ⊢
  split at h
  · rename_i hwhole
    rw [if_pos hwhole]
  · exact absurd h (Nat.not_lt.mpr (List.takeWhile_prefix f).length_le)

theorem afterFolded?_eq_some_iff {w : List Char} :
    afterFolded? w text = some rest ↔ ∃ u, text = u ++ rest ∧ u.map fold = w := by
  induction w generalizing text with
  | nil =>
    rw [afterFolded?]
    constructor
    · rintro ⟨⟩
      exact ⟨[], rfl, rfl⟩
    · rintro ⟨u, rfl, hu⟩
      rw [List.map_eq_nil_iff.mp hu]
      rfl
  | cons d w ih =>
    cases text with
    | nil => simp [afterFolded?]
    | cons c cs =>
      rw [afterFolded?]
      split
      · rename_i hc
        rw [ih]
        constructor
        · rintro ⟨u, rfl, rfl⟩
          exact ⟨c :: u, rfl, by rw [List.map_cons, hc]⟩
        · rintro ⟨u, hu, hfold⟩
          cases u with
          | nil => cases hfold
          | cons e u =>
            obtain ⟨rfl, rfl⟩ := List.cons.inj hu
            exact ⟨u, rfl, (List.cons.inj hfold).2⟩
      · rename_i hc
        refine ⟨nofun, ?_⟩
        rintro ⟨u, hu, hfold⟩
        cases u with
        | nil => cases hfold
        | cons e u =>
          obtain ⟨rfl, -⟩ := List.cons.inj hu
          exact absurd (List.cons.inj hfold).1 hc

end Vigil.Scan
