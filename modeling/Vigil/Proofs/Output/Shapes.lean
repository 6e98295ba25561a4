import Mathlib.Data.List.DropRight
import Mathlib.Data.List.Induction
import Vigil.Output.Fingerprint
import Vigil.Proofs.Text.Runs
import Vigil.Proofs.Text.Scanning

/-!
# What becomes of the numbers of a line

The first pass replaces hexadecimal literals, the second one the runs of digits that are left. A number shows
neither its value nor its length, unless the first pass takes its last digit for the beginning of a literal.
`Shape.collapse_number`: what a number turns into, with what follows it. `Shape.literals_append`: what stands in
front of it keeps to itself or ends with a literal that takes the number in.
-/

namespace Vigil.Shape

open CharClass Scan

variable {c x : Char} {cs p q s t d text : List Char}

def literals (text : List Char) : List Char := replaceAll hexLiteral text

def numbers (text : List Char) : List Char := replaceAll digitRun text

theorem collapse_eq (text : List Char) : collapse text = numbers (literals text) := rfl

@[simp] theorem literals_nil : literals [] = [] := rfl

@[simp] theorem numbers_nil : numbers [] = [] := rfl

-- ---------------------------------------------------------------------------
-- The ends of texts
-- ---------------------------------------------------------------------------

theorem hexDigit_of_digit (h : isAsciiDigit c) : isHexDigit c := by
  simp [isHexDigit, h]

theorem head_hexDigit (h : text.head?.any isAsciiDigit) : text.head?.any isHexDigit := by
  cases text with
  | nil => exact h
  | cons c cs => exact hexDigit_of_digit h

-- ---------------------------------------------------------------------------
-- Runs of digits
-- ---------------------------------------------------------------------------

theorem blind_digitRun : Blind digitRun := fun _ _ _ => rfl

theorem numbers_digit (hc : isAsciiDigit c) (cs : List Char) :
    numbers (c :: cs) = '#' :: numbers (cs.dropWhile isAsciiDigit) := by
  have hrun : digitRun none (c :: cs) = some ⟨(cs.takeWhile isAsciiDigit).length + 1, placeholder⟩ := by
    simp [digitRun, hc]
  rw [numbers, replaceAll_of_some blind_digitRun hrun, Nat.add_sub_cancel, drop_length_takeWhile]
  rfl

theorem numbers_other (hc : ¬ isAsciiDigit c) (cs : List Char) : numbers (c :: cs) = c :: numbers cs :=
  replaceAll_of_none blind_digitRun (by simp [digitRun, hc])

theorem run_induction {motive : List Char → Prop} (nil : motive [])
    (digit : ∀ c cs, isAsciiDigit c → motive (cs.dropWhile isAsciiDigit) → motive (c :: cs))
    (other : ∀ c cs, ¬ isAsciiDigit c → motive cs → motive (c :: cs)) (text : List Char) : motive text :=
  match text with
  | [] => nil
  | c :: cs =>
    if hc : isAsciiDigit c then digit c cs hc (run_induction nil digit other (cs.dropWhile isAsciiDigit))
    else other c cs hc (run_induction nil digit other cs)
termination_by text.length
decreasing_by
  · have hle := (List.dropWhile_suffix isAsciiDigit (l := cs)).length_le
    simp only [List.length_cons]
    omega
  · simp

theorem numbers_append (ht : ¬ t.head?.any isAsciiDigit) (p : List Char) :
    numbers (p ++ t) = numbers p ++ numbers t := by
  induction p using run_induction with
  | nil => rfl
  | digit c cs hc ih =>
    rw [List.cons_append, numbers_digit hc, numbers_digit hc, List.dropWhile_append]
    split
    · rename_i hall
      rw [List.isEmpty_iff.mp hall, dropWhile_of_head _ ht]
      rfl
    · rw [ih]
      rfl
  | other c cs hc ih => rw [List.cons_append, numbers_other hc, numbers_other hc, ih, List.cons_append]

theorem numbers_placeholder (p t : List Char) : numbers (p ++ '#' :: t) = numbers p ++ '#' :: numbers t := by
  have hhash : ¬ isAsciiDigit '#' := by decide
  rw [numbers_append (t := '#' :: t) hhash, numbers_other hhash]

theorem numbers_append_of_last (hp : ¬ p.getLast?.any isAsciiDigit) (t : List Char) :
    numbers (p ++ t) = numbers p ++ numbers t := by
  induction p using List.reverseRecOn with
  | nil => rfl
  | append_singleton p c =>
    have hc : ¬ isAsciiDigit c := by simpa using hp
    have hsplit (rest : List Char) : numbers (p ++ c :: rest) = numbers p ++ c :: numbers rest := by
      rw [numbers_append (by simpa using hc), numbers_other hc]
    rw [List.append_assoc, List.singleton_append, hsplit, hsplit, List.append_assoc]
    rfl

structure IsNumber (d : List Char) : Prop where
  ne_nil : d ≠ []
  digits : ∀ c ∈ d, isAsciiDigit c

instance (d : List Char) : Decidable (IsNumber d) :=
  decidable_of_iff (d ≠ [] ∧ d.all isAsciiDigit)
    ⟨fun h => ⟨h.1, List.all_eq_true.mp h.2⟩, fun h => ⟨h.ne_nil, List.all_eq_true.mpr h.digits⟩⟩

theorem IsNumber.numbers_append (hd : IsNumber d) (ht : ¬ t.head?.any isAsciiDigit) :
    numbers (d ++ t) = '#' :: numbers t := by
  match d, hd with
  | c :: d, hd =>
    rw [List.cons_append, numbers_digit (hd.digits c List.mem_cons_self),
      List.dropWhile_append_of_pos fun c hc => hd.digits c (List.mem_cons_of_mem _ hc), dropWhile_of_head _ ht]
  | [], hd => exact absurd rfl hd.ne_nil

-- ---------------------------------------------------------------------------
-- Literals
-- ---------------------------------------------------------------------------

def opensLiteral : List Char → Bool
  | x :: h :: _ => (x == 'x' || x == 'X') && isHexDigit h
  | _ => false

@[simp] theorem opensLiteral_cons (x c : Char) (cs : List Char) :
    opensLiteral (x :: c :: cs) ↔ (x = 'x' ∨ x = 'X') ∧ isHexDigit c := by
  simp [opensLiteral]

def behindLiteral (text : List Char) : List Char := (text.drop 1).dropWhile isHexDigit

theorem blind_hexLiteral : Blind hexLiteral := by
  intro before before' text
  unfold hexLiteral
  split
  · rfl
  · rfl

theorem literals_zero (h : opensLiteral cs) : literals ('0' :: cs) = '#' :: literals (behindLiteral cs) := by
  match cs, h with
  | x :: d :: cs, h =>
    obtain ⟨hx, hd⟩ := (opensLiteral_cons x d cs).mp h
    have hfound : hexLiteral none ('0' :: x :: d :: cs) =
        some ⟨((d :: cs).takeWhile isHexDigit).length + 2, placeholder⟩ := by
      simp [hexLiteral, hx, hd]
    rw [literals, replaceAll_of_some blind_hexLiteral hfound, Nat.add_sub_cancel (m := 1), List.drop_succ_cons,
      drop_length_takeWhile]
    rfl

theorem literals_other (h : ¬ (c = '0' ∧ opensLiteral cs)) : literals (c :: cs) = c :: literals cs := by
  refine replaceAll_of_none blind_hexLiteral ?_
  unfold hexLiteral
  split
  · rename_i x rest heq
    cases heq
    refine if_neg fun hlit => h ⟨rfl, ?_⟩
    cases rest with
    | nil => exact absurd rfl hlit.2
    | cons d rest =>
      by_cases hd : isHexDigit d
      · exact (opensLiteral_cons _ _ _).mpr ⟨hlit.1, hd⟩
      · simp [hd] at hlit
  · rfl

/-- A literal takes in all hexadecimal digits that follow. -/
theorem literals_append_of_literal (hx : x = 'x' ∨ x = 'X') {ds : List Char} (hds : ∀ c ∈ ds, isHexDigit c)
    (h : ds ≠ [] ∨ t.head?.any isHexDigit) :
    literals ('0' :: x :: (ds ++ t)) = '#' :: literals (t.dropWhile isHexDigit) := by
  have hopens : opensLiteral (x :: (ds ++ t)) := by
    cases ds with
    | nil =>
      cases t with
      | nil => simp at h
      | cons d t => simpa [hx] using h
    | cons d ds => simp [hx, hds d List.mem_cons_self]
  rw [literals_zero hopens, behindLiteral, List.drop_succ_cons, List.drop_zero, List.dropWhile_append_of_pos hds]

theorem literal_induction {motive : List Char → Prop} (nil : motive [])
    (literal : ∀ x ds rest, (x = 'x' ∨ x = 'X') → ds ≠ [] → (∀ c ∈ ds, isHexDigit c) →
      ¬ rest.head?.any isHexDigit → motive rest → motive ('0' :: x :: (ds ++ rest)))
    (other : ∀ c cs, ¬ (c = '0' ∧ opensLiteral cs) → motive cs → motive (c :: cs)) (text : List Char) :
    motive text := by
  match text with
  | [] => exact nil
  | c :: cs =>
    by_cases h : c = '0' ∧ opensLiteral cs
    · match cs, h with
      | x :: d :: cs, ⟨hzero, hopens⟩ =>
        obtain ⟨hx, hd⟩ := (opensLiteral_cons x d cs).mp hopens
        have hrest := literal_induction nil literal other (cs.dropWhile isHexDigit)
        have hwhole := literal x (d :: cs.takeWhile isHexDigit) _ hx (by simp) ?_ ?_ hrest
        · rwa [List.cons_append, List.takeWhile_append_dropWhile, ← hzero] at hwhole
        · exact List.forall_mem_cons.mpr ⟨hd, fun c hc => List.mem_takeWhile_imp hc⟩
        · exact head_dropWhile isHexDigit cs
    · exact other c cs h (literal_induction nil literal other cs)
termination_by text.length
decreasing_by
  · have hle := (List.dropWhile_suffix isHexDigit (l := cs)).length_le
    simp only [List.length_cons]
    omega
  · simp

theorem literals_eq_nil : literals text = [] ↔ text = [] := by
  cases text using literal_induction with
  | nil => simp
  | literal x ds rest hx hne hds => simp [literals_append_of_literal hx hds (.inl hne)]
  | other c cs h => simp [literals_other h]

theorem head_literals (h : ¬ text.head?.any isAsciiDigit) : ¬ (literals text).head?.any isAsciiDigit := by
  cases text using literal_induction with
  | nil => exact h
  | literal => exact absurd rfl h
  | other c cs hno =>
    rw [literals_other hno]
    exact h

theorem getLast_of_append {f : Char → Bool} (h : ¬ (p ++ t).getLast?.any f) : ¬ t.getLast?.any f := by
  by_cases ht : t = []
  · simp [ht]
  · rwa [List.getLast?_append_of_ne_nil p ht] at h

theorem getLast_cons {f : Char → Bool} (hc : t = [] → ¬ f c) (ht : ¬ t.getLast?.any f) :
    ¬ (c :: t).getLast?.any f := by
  by_cases hnil : t = []
  · simpa [hnil] using hc hnil
  · rwa [← List.singleton_append, List.getLast?_append_of_ne_nil _ hnil]

theorem getLast_literals (h : ¬ text.getLast?.any isAsciiDigit) :
    ¬ (literals text).getLast?.any isAsciiDigit := by
  induction text using literal_induction with
  | nil => exact h
  | literal x ds rest hx hne hds hrest ih =>
    rw [literals_append_of_literal hx hds (.inl hne), dropWhile_of_head _ hrest]
    exact getLast_cons (fun _ => by decide) (ih (getLast_of_append (p := '0' :: x :: ds) h))
  | other c cs hno ih =>
    rw [literals_other hno]
    refine getLast_cons (fun hnil => ?_) (ih (getLast_of_append (p := [c]) h))
    rw [literals_eq_nil.mp hnil] at h
    simpa using h

-- ---------------------------------------------------------------------------
-- What becomes of a number
-- ---------------------------------------------------------------------------

/-- With the last digit of the number, a literal begins. -/
def LendsZero (d s : List Char) : Prop := d.getLast? = some '0' ∧ opensLiteral s

instance (d s : List Char) : Decidable (LendsZero d s) := inferInstanceAs (Decidable (_ ∧ _))

/-- What a number turns into, with what follows it. If a literal begins with its last digit, then only what is
left of the number in front of that, if anything, counts as one. -/
def numberShape (d s : List Char) : List Char :=
  if LendsZero d s then (if d.length = 1 then ['#'] else ['#', '#']) ++ collapse (behindLiteral s)
  else '#' :: collapse s

theorem not_opensLiteral_of_digit (hc : isAsciiDigit c) (cs : List Char) : ¬ opensLiteral (c :: cs) := by
  intro h
  cases cs with
  | nil => cases h
  | cons d cs =>
    rcases ((opensLiteral_cons c d cs).mp h).1 with rfl | rfl <;> cases hc

theorem literals_digits {e : List Char} (he : ∀ c ∈ e, isAsciiDigit c) (hc : isAsciiDigit c) (cs : List Char) :
    literals (e ++ c :: cs) = e ++ literals (c :: cs) := by
  induction e with
  | nil => rfl
  | cons a e ih =>
    have hnext : ¬ opensLiteral (e ++ c :: cs) := by
      cases e with
      | nil => exact not_opensLiteral_of_digit hc cs
      | cons b e => exact not_opensLiteral_of_digit (he b (by simp)) _
    rw [List.cons_append, literals_other fun h => hnext h.2, ih fun b hb => he b (List.mem_cons_of_mem _ hb)]
    rfl

theorem collapse_number (hd : IsNumber d) (hs : ¬ s.head?.any isAsciiDigit) :
    collapse (d ++ s) = numberShape d s := by
  obtain ⟨e, z, rfl⟩ : ∃ e z, d = e ++ [z] := ⟨_, _, (List.dropLast_concat_getLast hd.ne_nil).symm⟩
  have he : ∀ c ∈ e, isAsciiDigit c := fun c hc => hd.digits c (List.mem_append_left _ hc)
  have hz : isAsciiDigit z := hd.digits z (by simp)
  rw [collapse_eq, List.append_assoc, List.singleton_append, literals_digits he hz, numberShape]
  split
  · rename_i hlends
    obtain ⟨hzero, hopens⟩ : z = '0' ∧ opensLiteral s := by simpa [LendsZero] using hlends
    rw [hzero, literals_zero hopens, numbers_placeholder, ← collapse_eq]
    by_cases hend : e = []
    · rw [hend]
      rfl
    · have hfront : numbers e = ['#'] := by simpa using IsNumber.numbers_append ⟨hend, he⟩ (t := []) (by simp)
      rw [hfront, if_neg (by simpa using hend)]
      rfl
  · rename_i hlends
    have hno : ¬ (z = '0' ∧ opensLiteral s) := by simpa [LendsZero] using hlends
    rw [literals_other hno, ← List.singleton_append, ← List.append_assoc, hd.numbers_append (head_literals hs)]
    rfl

-- ---------------------------------------------------------------------------
-- What stands in front of a number
-- ---------------------------------------------------------------------------

theorem opensLiteral_append (h : opensLiteral p) (t : List Char) : opensLiteral (p ++ t) := by
  match p, h with
  | _ :: _ :: _, h => exact h

theorem opensLiteral_of_append (h : opensLiteral (p ++ t)) :
    opensLiteral p ∨ p = [] ∨ ∃ x, p = [x] ∧ (x = 'x' ∨ x = 'X') := by
  match p with
  | [] => exact .inr (.inl rfl)
  | [x] =>
    refine .inr (.inr ⟨x, rfl, ?_⟩)
    match t, h with
    | c :: t, h => exact ((opensLiteral_cons x c t).mp h).1
  | _ :: _ :: _ => exact .inl h

/-- The text ends with a literal that goes on with whatever hexadecimal digits follow, or that begins with them. -/
def Unfinished (front text : List Char) : Prop :=
  ∃ x digits, text = front ++ '0' :: x :: digits ∧ (x = 'x' ∨ x = 'X') ∧ ∀ c ∈ digits, isHexDigit c

/-- Either a digit that follows the text, which ends with none, belongs to a literal begun in it, or the first pass
takes the text for itself. -/
theorem literals_append (hp : ¬ p.getLast?.any isAsciiDigit) :
    (∃ front, Unfinished front p ∧ ∀ t, t.head?.any isAsciiDigit →
      literals (p ++ t) = literals front ++ '#' :: literals (t.dropWhile isHexDigit)) ∨
    ∀ t, t.head?.any isAsciiDigit → literals (p ++ t) = literals p ++ literals t := by
  induction p using literal_induction with
  | nil => exact .inr fun _ _ => rfl
  | literal x ds rest hx hne hds hrest ih =>
    by_cases hend : rest = []
    · subst hend
      refine .inl ⟨[], ⟨x, ds, by simp, hx, hds⟩, fun t _ => ?_⟩
      rw [List.append_nil, List.cons_append, List.cons_append, literals_append_of_literal hx hds (.inl hne)]
      rfl
    have hfirst {front : List Char} (hf : ¬ front.head?.any isHexDigit) :
        literals ('0' :: x :: (ds ++ front)) = '#' :: literals front := by
      rw [literals_append_of_literal hx hds (.inl hne), dropWhile_of_head _ hf]
    have hwhole (t : List Char) : literals ('0' :: x :: (ds ++ rest) ++ t) = '#' :: literals (rest ++ t) := by
      rw [List.cons_append, List.cons_append, List.append_assoc, hfirst]
      rwa [List.head?_append_of_ne_nil _ hend]
    rcases ih (getLast_of_append (p := '0' :: x :: ds) hp) with ⟨front, ⟨y, digits, heq, hy, hdigits⟩, hopen⟩ | hclosed
    · have hfront : front ≠ [] := by
        rintro rfl
        rw [heq] at hrest
        exact hrest rfl
      have hhead : ¬ front.head?.any isHexDigit := by
        rwa [heq, List.head?_append_of_ne_nil _ hfront] at hrest
      refine .inl ⟨'0' :: x :: (ds ++ front), ⟨y, digits, by simp [heq], hy, hdigits⟩, fun t ht => ?_⟩
      rw [hwhole, hopen t ht, hfirst hhead]
      rfl
    · refine .inr fun t ht => ?_
      rw [hwhole, hclosed t ht, hfirst hrest]
      rfl
  | other c cs hno ih =>
    -- only `0x` at the very end can be made a literal by what follows it
    by_cases hlone : c = '0' ∧ ∃ x, cs = [x] ∧ (x = 'x' ∨ x = 'X')
    · obtain ⟨rfl, x, rfl, hx⟩ := hlone
      have hnone : ∀ c ∈ ([] : List Char), isHexDigit c := by simp
      refine .inl ⟨[], ⟨x, [], rfl, hx, hnone⟩, fun t ht => ?_⟩
      exact literals_append_of_literal hx hnone (.inr (head_hexDigit ht))
    have hwhole (t : List Char) : literals (c :: cs ++ t) = c :: literals (cs ++ t) := by
      refine literals_other fun ⟨hzero, hopens⟩ => ?_
      rcases opensLiteral_of_append hopens with hopens | hnil | hx
      · exact hno ⟨hzero, hopens⟩
      · rw [hnil, hzero] at hp
        exact hp rfl
      · exact hlone ⟨hzero, hx⟩
    rcases ih (getLast_of_append (p := [c]) hp) with ⟨front, ⟨y, digits, heq, hy, hdigits⟩, hopen⟩ | hclosed
    · refine .inl ⟨c :: front, ⟨y, digits, by simp [heq], hy, hdigits⟩, fun t ht => ?_⟩
      have hfront : ¬ (c = '0' ∧ opensLiteral front) := fun ⟨hzero, hopens⟩ =>
        hno ⟨hzero, heq ▸ opensLiteral_append hopens _⟩
      rw [hwhole, hopen t ht, literals_other hfront]
      rfl
    · refine .inr fun t ht => ?_
      rw [hwhole, hclosed t ht, literals_other hno]
      rfl

-- ---------------------------------------------------------------------------
-- A number between two texts
-- ---------------------------------------------------------------------------

theorem IsNumber.head (hd : IsNumber d) (s : List Char) : (d ++ s).head?.any isAsciiDigit := by
  match d, hd with
  | [], hd => exact absurd rfl hd.ne_nil
  | c :: d, hd => exact hd.digits c List.mem_cons_self

/-- A literal begun in front of the number takes it in; otherwise what the number turns into depends only on itself
and on what follows. -/
theorem collapse_between (hp : ¬ p.getLast?.any isAsciiDigit) (hs : ¬ s.head?.any isAsciiDigit) :
    (∃ front, Unfinished front p ∧ ∀ d, IsNumber d →
      collapse (p ++ d ++ s) = collapse front ++ '#' :: collapse (s.dropWhile isHexDigit)) ∨
    ∀ d, IsNumber d → collapse (p ++ d ++ s) = collapse p ++ numberShape d s := by
  rcases literals_append hp with ⟨front, hfront, hopen⟩ | hclosed
  · refine .inl ⟨front, hfront, fun d hd => ?_⟩
    have hhex : ∀ c ∈ d, isHexDigit c := fun c hc => hexDigit_of_digit (hd.digits c hc)
    rw [collapse_eq, List.append_assoc, hopen _ (hd.head s), List.dropWhile_append_of_pos hhex, numbers_placeholder]
    rfl
  · refine .inr fun d hd => ?_
    rw [collapse_eq, List.append_assoc, hclosed _ (hd.head s), numbers_append_of_last (getLast_literals hp),
      ← collapse_eq, ← collapse_eq, collapse_number hd hs]

theorem collapse_number_congr (hp : ¬ p.getLast?.any isAsciiDigit) (hs : ¬ s.head?.any isAsciiDigit) {d' : List Char}
    (hd : IsNumber d) (hd' : IsNumber d') (h : ¬ LendsZero d s) (h' : ¬ LendsZero d' s) :
    collapse (p ++ d ++ s) = collapse (p ++ d' ++ s) := by
  rcases collapse_between hp hs with ⟨front, -, hopen⟩ | hclosed
  · rw [hopen d hd, hopen d' hd']
  · rw [hclosed d hd, hclosed d' hd', numberShape, numberShape, if_neg h, if_neg h']

-- ---------------------------------------------------------------------------
-- Lines
-- ---------------------------------------------------------------------------

theorem trimLineEnd_append (hp : ¬ p.getLast?.any isLineEnd) (t : List Char) :
    trimLineEnd (p ++ t) = p ++ trimLineEnd t := by
  rw [← List.head?_reverse] at hp
  rw [trimLineEnd, trimLineEnd, List.reverse_append, List.dropWhile_append]
  split
  · rename_i hall
    rw [List.isEmpty_iff.mp hall, dropWhile_of_head _ hp]
    simp
  · simp

theorem isPrefix_trimLineEnd (text : List Char) : trimLineEnd text <+: text :=
  List.rdropWhile_prefix isLineEnd text

theorem trimLineEnd_number (hd : IsNumber d) (p s : List Char) :
    trimLineEnd (p ++ d ++ s) = p ++ d ++ trimLineEnd s := by
  have hlast : isAsciiDigit (d.getLast hd.ne_nil) := hd.digits _ (List.getLast_mem hd.ne_nil)
  refine trimLineEnd_append ?_ s
  rw [List.getLast?_append_of_ne_nil p hd.ne_nil, List.getLast?_eq_some_getLast hd.ne_nil]
  intro hend
  have hlineEnd : d.getLast hd.ne_nil = '\r' ∨ d.getLast hd.ne_nil = '\n' := by simpa [isLineEnd] using hend
  rcases hlineEnd with h | h <;> rw [h] at hlast <;> cases hlast

theorem head_of_isPrefix {f : Char → Bool} (ht : t <+: s) (h : ¬ s.head?.any f) : ¬ t.head?.any f := by
  obtain ⟨tail, rfl⟩ := ht
  cases t with
  | nil => simp
  | cons c t => exact h

theorem LendsZero.of_isPrefix (h : LendsZero d t) (ht : t <+: s) : LendsZero d s := by
  obtain ⟨tail, rfl⟩ := ht
  exact ⟨h.1, opensLiteral_append h.2 tail⟩

/-- A number shows neither its value nor its length, unless a literal begins with its last digit. -/
theorem number_hidden_unless_literal {p s : String} (hp : ¬ p.toList.getLast?.any isAsciiDigit)
    (hs : ¬ s.toList.head?.any isAsciiDigit) :
    (∀ d d' : String, IsNumber d.toList → IsNumber d'.toList →
      ¬ LendsZero d.toList s.toList → ¬ LendsZero d'.toList s.toList →
      normalize (p ++ d ++ s) = normalize (p ++ d' ++ s) ∧
        (Fingerprint.ofLine (p ++ d ++ s)).shape = (Fingerprint.ofLine (p ++ d' ++ s)).shape) ∧
    ((∃ front, Unfinished front p.toList ∧ ∀ d : String, IsNumber d.toList →
        normalize (p ++ d ++ s) =
          String.ofList (collapse front ++ '#' :: collapse (s.toList.dropWhile isHexDigit))) ∨
      ∀ d : String, IsNumber d.toList →
        normalize (p ++ d ++ s) = String.ofList (collapse p.toList ++ numberShape d.toList s.toList)) := by
  have hline (d : String) : (p ++ d ++ s).toList = p.toList ++ d.toList ++ s.toList := by
    rw [String.toList_append, String.toList_append]
  have hnormal (d : String) : normalize (p ++ d ++ s) =
      String.ofList (collapse (p.toList ++ d.toList ++ s.toList)) := by
    rw [normalize, hline]
  have hshape {d : String} (hd : IsNumber d.toList) : (Fingerprint.ofLine (p ++ d ++ s)).shape =
      String.ofList (collapse (p.toList ++ d.toList ++ trimLineEnd s.toList)) := by
    rw [Fingerprint.ofLine, hline, trimLineEnd_number hd]
  refine ⟨fun d d' hd hd' h h' => ⟨?_, ?_⟩, ?_⟩
  · rw [hnormal, hnormal, collapse_number_congr hp hs hd hd' h h']
  · have htrim := isPrefix_trimLineEnd s.toList
    rw [hshape hd, hshape hd', collapse_number_congr hp (head_of_isPrefix htrim hs) hd hd'
      (fun hlends => h (hlends.of_isPrefix htrim)) fun hlends => h' (hlends.of_isPrefix htrim)]
  · rcases collapse_between hp hs with ⟨front, hfront, hopen⟩ | hclosed
    · exact .inl ⟨front, hfront, fun d hd => by rw [hnormal, hopen _ hd]⟩
    · exact .inr fun d hd => by rw [hnormal, hclosed _ hd]

theorem frame_hidden :
    normalize "frame 640 of 99" = normalize "frame 7 of 99" :=
  ((number_hidden_unless_literal (p := "frame ") (s := " of 99") (by decide) (by decide)).1 "640" "7"
    (by decide) (by decide) (by decide) (by decide)).1

/-- With the last digit of 640, a literal begins. -/
theorem size_not_hidden :
    ¬ ∀ p s d d' : String, ¬ p.toList.getLast?.any isAsciiDigit → ¬ s.toList.head?.any isAsciiDigit →
      IsNumber d.toList → IsNumber d'.toList → normalize (p ++ d ++ s) = normalize (p ++ d' ++ s) := by
  intro h
  have hsame := h "frame " "x480" "640" "641" (by decide) (by decide) (by decide) (by decide)
  exact absurd hsame (by decide)

end Vigil.Shape
