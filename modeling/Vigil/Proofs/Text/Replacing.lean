import Mathlib.Data.List.Basic
import Vigil.Proofs.Text.Scanning

/-!
# Replacing with an eye on the surroundings

A matcher may look at the character in front of a match. `scan_induction` takes a text apart as the scan does.
`replaceFrom_eq_self`: a text without matches is left alone, and so is one whose matches are their own replacements.
`replaceFrom_append`: what is replaced in a text is done with before what follows it, but for the characters that the
last match takes from there.
-/

namespace Vigil.Scan

variable {m m' : Matcher} {before : Option Char} {c : Char}
  {cs a t text taken rest instead more : List Char}

-- ---------------------------------------------------------------------------
-- The character in front
-- ---------------------------------------------------------------------------

def lastOr (before : Option Char) (text : List Char) : Option Char := text.getLast?.or before

@[simp] theorem lastOr_cons (before : Option Char) (c : Char) (cs : List Char) :
    lastOr before (c :: cs) = lastOr (some c) cs := by
  rw [lastOr, lastOr, List.getLast?_cons]
  cases cs.getLast? <;> rfl

@[simp] theorem lastOr_append (before : Option Char) (a t : List Char) :
    lastOr before (a ++ t) = lastOr (lastOr before a) t := by
  rw [lastOr, lastOr, lastOr, List.getLast?_append, Option.or_assoc]

theorem lastOr_none (text : List Char) : lastOr none text = text.getLast? := Option.or_none

theorem lastOr_of_ne_nil (h : a ≠ []) (before before' : Option Char) : lastOr before a = lastOr before' a := by
  obtain ⟨c, cs, rfl⟩ := List.exists_cons_of_ne_nil h
  rw [lastOr_cons, lastOr_cons]

-- ---------------------------------------------------------------------------
-- One match
-- ---------------------------------------------------------------------------

theorem replaceFrom_skip (m : Matcher) (before : Option Char) (a t : List Char) :
    replaceFrom m before a.length (a ++ t) = replaceFrom m (lastOr before a) 0 t := by
  induction a generalizing before with
  | nil => rfl
  | cons c a ih => rw [List.cons_append, List.length_cons, replaceFrom, ih, lastOr_cons]

theorem replaceFrom_kept (h : m before (c :: cs) = none) :
    replaceFrom m before 0 (c :: cs) = c :: replaceFrom m (some c) 0 cs := by
  rw [replaceFrom, h]

theorem replaceFrom_hit (hne : taken ≠ []) (h : m before (taken ++ rest) = some ⟨taken.length, instead⟩) :
    replaceFrom m before 0 (taken ++ rest) = instead ++ replaceFrom m (lastOr before taken) 0 rest := by
  match taken, hne with
  | c :: taken, _ =>
    rw [List.cons_append] at h ⊢
    rw [replaceFrom, h, lastOr_cons, ← replaceFrom_skip]
    rfl

def Bounded (m : Matcher) : Prop := ∀ before text f, m before text = some f → 0 < f.taken ∧ f.taken ≤ text.length

/-- A text is empty, or begins with a character that is kept, or with a match. -/
theorem scan_induction (hm : Bounded m) {motive : Option Char → List Char → Prop} (nil : ∀ before, motive before [])
    (kept : ∀ before c cs, m before (c :: cs) = none → motive (some c) cs → motive before (c :: cs))
    (hit : ∀ before taken rest instead, taken ≠ [] → m before (taken ++ rest) = some ⟨taken.length, instead⟩ →
      motive (lastOr before taken) rest → motive before (taken ++ rest))
    (before : Option Char) (text : List Char) : motive before text := by
  match text with
  | [] => exact nil before
  | c :: cs =>
    cases h : m before (c :: cs) with
    | none => exact kept before c cs h (scan_induction hm nil kept hit (some c) cs)
    | some f =>
      obtain ⟨hpos, hle⟩ := hm _ _ _ h
      have hlength : ((c :: cs).take f.taken).length = f.taken := List.length_take_of_le hle
      have hwhole := hit before ((c :: cs).take f.taken) ((c :: cs).drop f.taken) f.instead ?_ ?_
        (scan_induction hm nil kept hit _ _)
      · rwa [List.take_append_drop] at hwhole
      · refine List.ne_nil_of_length_pos ?_
        rwa [hlength]
      · rw [List.take_append_drop, hlength, h]
termination_by text.length
decreasing_by
  · simp
  · simp only [List.length_drop, List.length_cons] at *
    omega

/-- Up to the first match, if there is one, a text is kept. -/
theorem replaceFrom_eq (hm : Bounded m) (before : Option Char) (text : List Char) :
    replaceFrom m before 0 text = text ∨
      ∃ front taken rest instead out, text = front ++ (taken ++ rest) ∧ taken ≠ [] ∧
        m (lastOr before front) (taken ++ rest) = some ⟨taken.length, instead⟩ ∧
        replaceFrom m before 0 text = front ++ (instead ++ out) := by
  induction before, text using scan_induction hm with
  | nil before => exact .inl rfl
  | kept before c cs hnone ih =>
    rw [replaceFrom_kept hnone]
    rcases ih with heq | ⟨front, taken, rest, instead, out, rfl, hne, hfound, heq⟩
    · exact .inl (congrArg _ heq)
    · refine .inr ⟨c :: front, taken, rest, instead, out, rfl, hne, ?_, congrArg _ heq⟩
      rwa [lastOr_cons]
  | hit before taken rest instead hne hfound ih =>
    exact .inr ⟨[], taken, rest, instead, _, rfl, hne, hfound, replaceFrom_hit hne hfound⟩

-- ---------------------------------------------------------------------------
-- Texts without matches
-- ---------------------------------------------------------------------------

def Clean (m : Matcher) : Option Char → List Char → Prop
  | _, [] => True
  | before, c :: cs => m before (c :: cs) = none ∧ Clean m (some c) cs

theorem Clean.of_append (h : Clean m before (a ++ t)) : Clean m (lastOr before a) t := by
  induction a generalizing before with
  | nil => exact h
  | cons c a ih =>
    rw [lastOr_cons]
    exact ih h.2

theorem Clean.eq_none (h : Clean m before (a ++ t)) (hne : t ≠ []) : m (lastOr before a) t = none := by
  obtain ⟨c, cs, rfl⟩ := List.exists_cons_of_ne_nil hne
  exact h.of_append.1

theorem Clean.imp (h : Clean m before text) (himp : ∀ before text, m before text = none → m' before text = none) :
    Clean m' before text := by
  induction text generalizing before with
  | nil => trivial
  | cons c cs ih => exact ⟨himp _ _ h.1, ih h.2⟩

theorem clean_of_forall (h : ∀ before text, m before text = none) (before : Option Char) (text : List Char) :
    Clean m before text := by
  induction text generalizing before with
  | nil => trivial
  | cons c cs ih => exact ⟨h _ _, ih _⟩

def changing (m : Matcher) : Matcher := fun before text =>
  (m before text).filter fun f => f.instead ≠ text.take f.taken

/-- The matches of a second matcher where a first one has none. -/
def missedBy (m m' : Matcher) : Matcher := fun before text =>
  if (m before text).isSome then none else m' before text

theorem changing_eq_none_iff {text : List Char} :
    changing m before text = none ↔ ∀ f, m before text = some f → f.instead = text.take f.taken := by
  unfold changing
  cases m before text <;> simp

theorem changing_of_none {text : List Char} (h : m before text = none) : changing m before text = none := by
  rw [changing, h]
  rfl

theorem Clean.changing (h : Clean m before text) : Clean (changing m) before text :=
  h.imp fun _ _ => changing_of_none

theorem missedBy_of_none (h : m before text = none) : missedBy m m' before text = m' before text := by
  simp [missedBy, h]

theorem missedBy_eq_none (h : m before text = none → m' before text = none) : missedBy m m' before text = none := by
  unfold missedBy
  cases hm : m before text with
  | none => simpa using h hm
  | some f => rfl

theorem replaceFrom_eq_self (hm : Bounded m) (h : Clean (changing m) before text) :
    replaceFrom m before 0 text = text := by
  induction before, text using scan_induction hm with
  | nil before => rfl
  | kept before c cs hnone ih => rw [replaceFrom_kept hnone, ih h.2]
  | hit before taken rest instead hne hfound ih =>
    rw [replaceFrom_hit hne hfound, ih h.of_append]
    obtain ⟨c, cs, rfl⟩ := List.exists_cons_of_ne_nil hne
    have hsame : instead = ((c :: cs) ++ rest).take (c :: cs).length := changing_eq_none_iff.mp h.1 _ hfound
    rw [hsame, List.take_left]

-- ---------------------------------------------------------------------------
-- A text and what follows it
-- ---------------------------------------------------------------------------

structure Front where
  written : List Char
  /-- How many characters its last match takes from what follows. -/
  overhang : Nat

/-- What becomes of a text that `more` follows. `skip` characters still belong to the last match. -/
def frontOf (m : Matcher) (more : List Char) (before : Option Char) (skip : Nat) : List Char → Front
  | [] => ⟨[], skip⟩
  | c :: cs =>
    match skip with
    | k + 1 => frontOf m more (some c) k cs
    | 0 =>
      match m before (c :: cs ++ more) with
      | some found =>
        let front := frontOf m more (some c) (found.taken - 1) cs
        ⟨found.instead ++ front.written, front.overhang⟩
      | none =>
        let front := frontOf m more (some c) 0 cs
        ⟨c :: front.written, front.overhang⟩

theorem frontOf_kept (h : m before (c :: cs ++ more) = none) :
    frontOf m more before 0 (c :: cs) =
      ⟨c :: (frontOf m more (some c) 0 cs).written, (frontOf m more (some c) 0 cs).overhang⟩ := by
  rw [frontOf, h]

theorem frontOf_found {f : Match} (h : m before (c :: cs ++ more) = some f) :
    frontOf m more before 0 (c :: cs) =
      ⟨f.instead ++ (frontOf m more (some c) (f.taken - 1) cs).written,
        (frontOf m more (some c) (f.taken - 1) cs).overhang⟩ := by
  rw [frontOf, h]

theorem replaceFrom_append (m : Matcher) (before : Option Char) (skip : Nat) (text more : List Char) :
    replaceFrom m before skip (text ++ more) = (frontOf m more before skip text).written ++
      replaceFrom m (lastOr before text) (frontOf m more before skip text).overhang more := by
  induction text generalizing before skip with
  | nil => rfl
  | cons c cs ih =>
    rw [lastOr_cons]
    cases skip with
    | succ k => rw [List.cons_append, replaceFrom, frontOf, ih]
    | zero =>
      cases h : m before (c :: cs ++ more) with
      | none =>
        rw [frontOf_kept h, List.cons_append, List.cons_append, ← ih]
        exact replaceFrom_kept h
      | some f =>
        rw [frontOf_found h, List.append_assoc, ← ih]
        rw [List.cons_append] at h ⊢
        rw [replaceFrom, h]

theorem frontOf_of_none (h : ∀ a b, text = a ++ b → b ≠ [] → m (lastOr before a) (b ++ more) = none) :
    frontOf m more before 0 text = ⟨text, 0⟩ := by
  induction text generalizing before with
  | nil => rfl
  | cons c cs ih =>
    have htail := @ih (some c) fun a b heq hne => by
      rw [← lastOr_cons before]
      exact h (c :: a) b (by rw [heq, List.cons_append]) hne
    have hnone : m before (c :: cs ++ more) = none := h [] (c :: cs) rfl (List.cons_ne_nil _ _)
    rw [frontOf_kept hnone, htail]

def Swallows (m : Matcher) (text more : List Char) : Prop := 0 < (frontOf m more none 0 text).overhang

instance (m : Matcher) (text more : List Char) : Decidable (Swallows m text more) := inferInstanceAs (Decidable (0 < _))

theorem exists_of_overhang {front : Front} {skip : Nat} (heq : frontOf m more before skip text = front)
    (h : 0 < front.overhang) :
    skip = text.length + front.overhang ∧ front.written = [] ∨
      ∃ a b f u, text = a ++ b ∧ b ≠ [] ∧ m (lastOr before a) (b ++ more) = some f ∧
        f.taken = b.length + front.overhang ∧ front.written = u ++ f.instead := by
  induction text generalizing before skip front with
  | nil =>
    subst heq
    exact .inl ⟨(Nat.zero_add _).symm, rfl⟩
  | cons c cs ih =>
    rcases skip with _ | k
    · cases hm : m before (c :: cs ++ more) with
      | none =>
        rw [frontOf_kept hm] at heq
        subst heq
        rcases ih rfl h with ⟨hskip, -⟩ | ⟨a, b, f, u, rfl, hne, hf, htaken, hwritten⟩
        · simp only at h
          omega
        · exact .inr ⟨c :: a, b, f, c :: u, rfl, hne, by rwa [lastOr_cons], htaken, congrArg (c :: ·) hwritten⟩
      | some f =>
        rw [frontOf_found hm] at heq
        subst heq
        rcases ih rfl h with ⟨hskip, hwritten⟩ | ⟨a, b, g, u, rfl, hne, hg, htaken, hwritten⟩
        · refine .inr ⟨[], c :: cs, f, [], rfl, List.cons_ne_nil _ _, hm, ?_, ?_⟩
          · simp only at h ⊢
            rw [List.length_cons]
            omega
          · simp only [hwritten, List.append_nil, List.nil_append]
        · refine .inr ⟨c :: a, b, g, f.instead ++ u, rfl, hne, by rwa [lastOr_cons], htaken, ?_⟩
          simp only [hwritten, List.append_assoc]
    · rw [frontOf] at heq
      rcases ih heq h with ⟨hskip, hwritten⟩ | ⟨a, b, f, u, rfl, hne, hf, htaken, hwritten⟩
      · refine .inl ⟨?_, hwritten⟩
        rw [List.length_cons]
        omega
      · exact .inr ⟨c :: a, b, f, u, rfl, hne, by rwa [lastOr_cons], htaken, hwritten⟩

/-- What follows has no part in the matches that begin in a text with such an end. -/
def Closed (m : Matcher) (atEnd : Option Char → Prop) (t t' : List Char) : Prop :=
  ∀ before a, a ≠ [] → atEnd a.getLast? →
    m before (a ++ t) = m before (a ++ t') ∧ ∀ f, m before (a ++ t) = some f → f.taken ≤ a.length

theorem Closed.frontOf_eq {atEnd : Option Char → Prop} {t' : List Char} {skip : Nat} (hm : Closed m atEnd t t')
    (before : Option Char) (hend : text ≠ [] → atEnd text.getLast?) (hskip : skip ≤ text.length) :
    (frontOf m t before skip text).overhang = 0 ∧ frontOf m t before skip text = frontOf m t' before skip text := by
  induction text generalizing before skip with
  | nil => exact ⟨Nat.le_zero.mp hskip, rfl⟩
  | cons c cs ih =>
    have htail : cs ≠ [] → atEnd cs.getLast? := by
      intro hne
      rw [← List.getLast?_append_of_ne_nil [c] hne]
      exact hend (List.cons_ne_nil _ _)
    rw [List.length_cons] at hskip
    rcases skip with _ | k
    · obtain ⟨heq, htaken⟩ := hm before (c :: cs) (List.cons_ne_nil _ _) (hend (List.cons_ne_nil _ _))
      cases hf : m before (c :: cs ++ t) with
      | none =>
        rw [frontOf_kept hf, frontOf_kept (heq ▸ hf)]
        obtain ⟨hover, hfront⟩ := @ih 0 (some c) htail (Nat.zero_le _)
        exact ⟨hover, by rw [hfront]⟩
      | some f =>
        have hle := htaken f hf
        rw [List.length_cons] at hle
        rw [frontOf_found hf, frontOf_found (heq ▸ hf)]
        obtain ⟨hover, hfront⟩ := @ih (f.taken - 1) (some c) htail (by omega)
        exact ⟨hover, by rw [hfront]⟩
    · rw [frontOf, frontOf]
      exact ih _ htail (by omega)

end Vigil.Scan
