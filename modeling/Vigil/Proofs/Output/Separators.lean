import Vigil.Proofs.Output.Shapes

/-!
# A line is normalized field by field

A character that can stand in no number keeps what is in front of it apart from what follows: `collapse_separated`.
A number that stands alone becomes one placeholder, and what has been normalized holds no digit, so that nothing
is left to normalize: `collapse_collapse`.
-/

namespace Vigil.Shape

open CharClass Scan

variable {c : Char} {d p t text : List Char}

-- ---------------------------------------------------------------------------
-- What keeps two texts apart
-- ---------------------------------------------------------------------------

/-- The character can stand neither in a run of digits nor in a literal. -/
structure Separates (c : Char) : Prop where
  not_hexDigit : ¬ isHexDigit c
  not_x : c ≠ 'x' ∧ c ≠ 'X'

instance (c : Char) : Decidable (Separates c) :=
  decidable_of_iff (¬ isHexDigit c ∧ c ≠ 'x' ∧ c ≠ 'X') ⟨fun h => ⟨h.1, h.2⟩, fun h => ⟨h.1, h.2⟩⟩

theorem Separates.not_digit (hc : Separates c) : ¬ isAsciiDigit c := fun h => hc.not_hexDigit (hexDigit_of_digit h)

theorem Separates.opensLiteral (hc : Separates c) (h : opensLiteral (p ++ c :: t)) : opensLiteral p := by
  match p, h with
  | [], h =>
    cases t with
    | nil => cases h
    | cons d t =>
      rcases ((opensLiteral_cons c d t).mp h).1 with rfl | rfl
      · exact absurd rfl hc.not_x.1
      · exact absurd rfl hc.not_x.2
  | [x], h => exact absurd ((opensLiteral_cons x c t).mp h).2 hc.not_hexDigit
  | _ :: _ :: _, h => exact h

theorem Separates.literals_append (hc : Separates c) (p t : List Char) :
    literals (p ++ c :: t) = literals p ++ c :: literals t := by
  induction p using literal_induction with
  | nil =>
    refine literals_other fun h => hc.not_hexDigit ?_
    rw [h.1]
    decide
  | literal x ds rest hx hne hds hrest ih =>
    have hstop : ¬ (rest ++ c :: t).head?.any isHexDigit := by
      cases rest with
      | nil => exact hc.not_hexDigit
      | cons _ _ => exact hrest
    rw [List.cons_append, List.cons_append, List.append_assoc, literals_append_of_literal hx hds (.inl hne),
      literals_append_of_literal hx hds (.inl hne), dropWhile_of_head _ hstop, dropWhile_of_head _ hrest, ih]
    rfl
  | other a cs hno ih =>
    have hno' : ¬ (a = '0' ∧ Shape.opensLiteral (cs ++ c :: t)) := fun h => hno ⟨h.1, hc.opensLiteral h.2⟩
    rw [List.cons_append, literals_other hno', literals_other hno, ih]
    rfl

theorem collapse_separated (hc : Separates c) (p t : List Char) :
    collapse (p ++ c :: t) = collapse p ++ c :: collapse t := by
  have hhead : ¬ (c :: literals t).head?.any isAsciiDigit := hc.not_digit
  rw [collapse_eq, hc.literals_append, numbers_append hhead, numbers_other hc.not_digit]
  rfl

-- ---------------------------------------------------------------------------
-- A number alone
-- ---------------------------------------------------------------------------

def IsLiteral (d : List Char) : Prop :=
  ∃ x digits, d = '0' :: x :: digits ∧ (x = 'x' ∨ x = 'X') ∧ digits ≠ [] ∧ ∀ c ∈ digits, isHexDigit c

theorem IsNumber.collapse (hd : IsNumber d) : collapse d = placeholder := by
  have hend : ¬ LendsZero d [] := fun h => absurd h.2 Bool.false_ne_true
  have hshape := collapse_number hd (s := []) (by simp)
  rwa [List.append_nil, numberShape, if_neg hend] at hshape

theorem IsLiteral.collapse (hd : IsLiteral d) : collapse d = placeholder := by
  obtain ⟨x, digits, rfl, hx, hne, hdigits⟩ := hd
  have hliteral := literals_append_of_literal (t := []) hx hdigits (.inl hne)
  rw [List.append_nil] at hliteral
  rw [collapse_eq, hliteral]
  rfl

-- ---------------------------------------------------------------------------
-- Normal forms
-- ---------------------------------------------------------------------------

def DigitFree (text : List Char) : Prop := ∀ c ∈ text, ¬ isAsciiDigit c

theorem digitFree_numbers (text : List Char) : DigitFree (numbers text) := by
  induction text using run_induction with
  | nil => simp [DigitFree]
  | digit c cs hc ih =>
    rw [numbers_digit hc]
    exact List.forall_mem_cons.mpr ⟨by decide, ih⟩
  | other c cs hc ih =>
    rw [numbers_other hc]
    exact List.forall_mem_cons.mpr ⟨hc, ih⟩

theorem DigitFree.collapse (h : DigitFree text) : collapse text = text := by
  have hpasses : literals text = text ∧ numbers text = text := by
    induction text with
    | nil => exact ⟨rfl, rfl⟩
    | cons c cs ih =>
      obtain ⟨hc, hcs⟩ := List.forall_mem_cons.mp h
      obtain ⟨hliterals, hnumbers⟩ := ih hcs
      have hzero : ¬ (c = '0' ∧ opensLiteral cs) := fun hlit => hc (hlit.1 ▸ rfl)
      rw [literals_other hzero, numbers_other hc, hliterals, hnumbers]
      exact ⟨rfl, rfl⟩
  rw [collapse_eq, hpasses.1, hpasses.2]

theorem collapse_collapse (text : List Char) : collapse (collapse text) = collapse text :=
  DigitFree.collapse (digitFree_numbers _)

-- ---------------------------------------------------------------------------
-- Lines
-- ---------------------------------------------------------------------------

theorem toList_normalize (line : String) : (normalize line).toList = collapse line.toList := by
  rw [normalize, String.toList_ofList]

/-- A line is normalized field by field, each number to one placeholder, and once and for all. -/
theorem normalizes_by_fields :
    (∀ a b : String, ∀ c : Char, ¬ isHexDigit c → c ≠ 'x' → c ≠ 'X' →
      normalize (a ++ String.singleton c ++ b) = normalize a ++ String.singleton c ++ normalize b) ∧
    (∀ d : String, IsNumber d.toList ∨ IsLiteral d.toList → normalize d = "#") ∧
    (∀ line : String, ∀ c ∈ (normalize line).toList, ¬ isAsciiDigit c) ∧
    ∀ line : String, normalize (normalize line) = normalize line := by
  refine ⟨fun a b c hhex hx hX => ?_, fun d hd => ?_, fun line => ?_, fun line => ?_⟩
  · refine String.toList_inj.mp ?_
    simp only [String.toList_append, String.toList_singleton, toList_normalize, List.append_assoc,
      List.singleton_append]
    exact collapse_separated ⟨hhex, hx, hX⟩ _ _
  · refine String.toList_inj.mp ?_
    rw [toList_normalize]
    exact hd.elim IsNumber.collapse IsLiteral.collapse
  · rw [toList_normalize]
    exact digitFree_numbers _
  · refine String.toList_inj.mp ?_
    rw [toList_normalize, toList_normalize, collapse_collapse]

/-- The colon keeps a 0 apart from the `x1f` behind it. -/
theorem fields_normalized :
    normalize "0:x1f at 0xBEEF" = "#:x#f at #" ∧
      normalize ("0" ++ String.singleton ':' ++ "x1f at 0xBEEF") =
        normalize "0" ++ String.singleton ':' ++ normalize "x1f at 0xBEEF" ∧
      normalize "0" = "#" :=
  ⟨by decide, normalizes_by_fields.1 "0" "x1f at 0xBEEF" ':' (by decide) (by decide) (by decide),
    normalizes_by_fields.2.1 "0" (.inl (by decide))⟩

end Vigil.Shape
