import Vigil.Output.Redaction
import Vigil.Proofs.Text.Classes
import Vigil.Proofs.Text.Replacing

/-!
# What the rules of redaction have in common

A secret begins where a word opens, with one of a few characters, and what is written in its place offers no place
for another one to begin. So a later rule leaves no more matches of an earlier one than there were before:
`Rule.clean_replaceFrom`. And a text that ends where a word may open is dealt with in the same way whatever the
secret is that follows it: `Local.frontOf_congr`.
-/

namespace Vigil.Redaction

open CharClass Scan

variable {m m' : Matcher} {before before' : Option Char} {c c' : Char}
  {cs a t t' x text taken rest instead more out : List Char} {p : Char → Bool}

-- ---------------------------------------------------------------------------
-- Where a secret can begin
-- ---------------------------------------------------------------------------

def startsSecret (c : Char) : Bool := isHexDigit (fold c) || fold c == 'p' || fold c == 's' || fold c == 't'

def startsRewritten (c : Char) : Bool := c == '<' || startsSecret c

/-- Nowhere in the text a word opens with a character of this kind. -/
def inert (p : Char → Bool) (before : Option Char) : List Char → Bool
  | [] => true
  | c :: cs => !(opensWord before && p c) && inert p (some c) cs

theorem inert_cons : inert p before (c :: cs) ↔ ¬ (opensWord before ∧ p c) ∧ inert p (some c) cs := by
  cases hopens : opensWord before <;> simp [inert, hopens]

theorem inert_append (p : Char → Bool) (before : Option Char) (a t : List Char) :
    inert p before (a ++ t) = (inert p before a && inert p (lastOr before a) t) := by
  induction a generalizing before with
  | nil => rfl
  | cons c a ih => rw [List.cons_append, inert, inert, ih, lastOr_cons, Bool.and_assoc]

theorem inert_of_forall (h : ∀ c ∈ text, ¬ p c) (before : Option Char) : inert p before text := by
  induction text generalizing before with
  | nil => rfl
  | cons c cs ih =>
    obtain ⟨hc, hcs⟩ := List.forall_mem_cons.mp h
    exact inert_cons.mpr ⟨fun hpc => hc hpc.2, ih hcs _⟩

theorem inert_of_word (h : ∀ c ∈ text, isWord c) (hbefore : ¬ opensWord before) : inert p before text := by
  induction text generalizing before with
  | nil => rfl
  | cons c cs ih =>
    obtain ⟨hc, hcs⟩ := List.forall_mem_cons.mp h
    exact inert_cons.mpr ⟨fun hpc => hbefore hpc.1, ih hcs (by simp [opensWord, hc])⟩

theorem opensWord_map_fold (before : Option Char) : opensWord (before.map fold) = opensWord before := by
  cases before with
  | none => rfl
  | some c => simp [opensWord, isWord_fold]

theorem inert_map_fold (hp : ∀ c, p (fold c) = p c) (before : Option Char) (text : List Char) :
    inert p (before.map fold) (text.map fold) = inert p before text := by
  induction text generalizing before with
  | nil => rfl
  | cons c cs ih => rw [List.map_cons, inert, inert, opensWord_map_fold, hp, ← ih]; rfl

theorem startsSecret_fold (c : Char) : startsSecret (fold c) = startsSecret c := by
  rw [startsSecret, fold_fold]
  rfl

theorem startsRewritten_fold (c : Char) : startsRewritten (fold c) = startsRewritten c := by
  induction c using char_cases with
  | ascii n hn => revert n; decide
  | longS => decide
  | kelvin => decide
  | wide c hc hs hk => rw [fold_of_wide hc hs hk]

theorem startsRewritten_of_startsSecret (h : startsSecret c) : startsRewritten c := by
  simp [startsRewritten, h]

theorem isAsciiAlnum_of_startsSecret (h : startsSecret c) : isAsciiAlnum (fold c) := by
  simp only [startsSecret, Bool.or_eq_true, beq_iff_eq] at h
  rcases h with ((h | h) | h) | h
  · exact isAsciiAlnum_of_isHexDigit h
  all_goals rw [h]; decide

theorem startsSecret_of_isHexDigit (h : isHexDigit c) : startsSecret c := by
  induction c using char_cases with
  | ascii n hn => revert n; decide
  | longS => decide
  | kelvin => exact absurd h (by decide)
  | wide c hc hs hk => exact absurd (isAsciiAlnum_of_isHexDigit h) (not_isAsciiAlnum_of_wide hc)

theorem isWord_of_startsSecret (h : startsSecret c) : isWord c := by
  rw [← isWord_fold]
  exact isWord_of_isAsciiAlnum (isAsciiAlnum_of_startsSecret h)

theorem not_isSpace_of_startsRewritten (h : startsRewritten c) : ¬ isSpace c := by
  intro hspace
  rcases Bool.or_eq_true_iff.mp h with h | h
  · rw [beq_iff_eq.mp h] at hspace
    exact absurd hspace (by decide)
  · exact not_isWord_of_isSpace hspace (isWord_of_startsSecret h)

theorem isTokenChar_of_startsSecret (h : startsSecret c) : isTokenChar c := by
  simp [isTokenChar, isAsciiAlnum_of_startsSecret h]

theorem isValueChar_of_isWord (h : isWord c) : isValueChar c := by
  have hspace : ¬ isSpace c := fun hspace => not_isWord_of_isSpace hspace h
  have hcomma : c ≠ ',' := by
    rintro rfl
    exact absurd h (by decide)
  have hsemicolon : c ≠ ';' := by
    rintro rfl
    exact absurd h (by decide)
  simp [isValueChar, hspace, hcomma, hsemicolon]

theorem isValueChar_of_startsSecret (h : startsSecret c) : isValueChar c :=
  isValueChar_of_isWord (isWord_of_startsSecret h)

theorem not_startsSecret_of_not_isValueChar (h : ¬ text.head?.any isValueChar) : ¬ text.head?.any startsSecret := by
  cases text with
  | nil => exact Bool.false_ne_true
  | cons c cs => exact fun hstart => h (isValueChar_of_startsSecret hstart)

theorem append_of_inert {d : Char} {ds : List Char} (h : inert p (some d) ds) (hne : a ≠ [])
    (hopens : opensWord (lastOr before a)) (hc : p c) (heq : (d :: ds) ++ x = a ++ c :: t) : ∃ b, a = (d :: ds) ++ b ∧ x = b ++ c :: t := by
  rcases List.append_eq_append_iff.mp heq with ⟨b, ha, hx⟩ | ⟨b, hds, hx⟩
  · exact ⟨b, ha, hx⟩
  · cases b with
    | nil => exact ⟨[], by simpa using hds.symm, by simpa using hx.symm⟩
    | cons e b =>
      obtain ⟨rfl, -⟩ := List.cons.inj hx
      obtain ⟨d', a, rfl⟩ := List.exists_cons_of_ne_nil hne
      obtain ⟨rfl, htail⟩ : d' = d ∧ ds = a ++ c :: b := (List.cons.inj hds).imp_left Eq.symm
      rw [htail, inert_append, Bool.and_eq_true, inert_cons] at h
      rw [lastOr_cons] at hopens
      exact absurd ⟨hopens, hc⟩ h.2.1

-- ---------------------------------------------------------------------------
-- Rules
-- ---------------------------------------------------------------------------

/-- Of the character in front of a match only counts whether a word may open behind it. -/
structure Anchored (m : Matcher) : Prop where
  congr : ∀ before before' text, opensWord before = opensWord before' → m before text = m before' text
  opens : ∀ before text, m before text ≠ none → opensWord before ∧ text.head?.any startsSecret

theorem Anchored.eq_none (hm : Anchored m) (h : ¬ (opensWord before ∧ text.head?.any startsSecret)) :
    m before text = none := by
  by_contra hne
  exact h (hm.opens _ _ hne)

theorem Anchored.clean_of_inert (hm : Anchored m) (ha : inert startsSecret before a) (h : Clean m (lastOr before a) t) :
    Clean m before (a ++ t) := by
  induction a generalizing before with
  | nil => exact h
  | cons c a ih =>
    obtain ⟨hc, ha⟩ := inert_cons.mp ha
    rw [lastOr_cons] at h
    exact ⟨hm.eq_none hc, ih ha h⟩

theorem Anchored.replaceFrom_inert (hm : Anchored m) (ha : inert startsSecret before a) (t : List Char) :
    replaceFrom m before 0 (a ++ t) = a ++ replaceFrom m (lastOr before a) 0 t := by
  induction a generalizing before with
  | nil => rfl
  | cons c a ih =>
    obtain ⟨hc, ha⟩ := inert_cons.mp ha
    rw [List.cons_append, replaceFrom_kept (hm.eq_none hc), ih ha, lastOr_cons]
    rfl

theorem Anchored.replaceFrom_head (hm : Anchored m) (h : ¬ text.head?.any startsSecret) (before before' : Option Char) :
    replaceFrom m before 0 text = replaceFrom m before' 0 text ∧
      (replaceFrom m before 0 text).head? = text.head? := by
  cases text with
  | nil => exact ⟨rfl, rfl⟩
  | cons c cs =>
    have hnone (b : Option Char) : m b (c :: cs) = none := hm.eq_none fun hstart => h hstart.2
    rw [replaceFrom_kept (hnone before), replaceFrom_kept (hnone before')]
    exact ⟨rfl, rfl⟩

theorem Anchored.head?_replaceAll (hm : Anchored m) (h : ¬ text.head?.any startsSecret) :
    (replaceAll m text).head? = text.head? := (hm.replaceFrom_head h none none).2

theorem Anchored.replaceFrom_plain (hm : Anchored m) (ha : ∀ c ∈ a, ¬ startsSecret c) (ht : ¬ t.head?.any startsSecret)
    (before : Option Char) : replaceFrom m before 0 (a ++ t) = a ++ replaceAll m t := by
  rw [hm.replaceFrom_inert (inert_of_forall ha before)]
  exact congrArg (a ++ ·) (hm.replaceFrom_head ht _ none).1

structure Hit (taken rest instead : List Char) : Prop where
  written : ∃ c cs, instead = c :: cs ∧ startsRewritten c ∧ inert startsSecret (some c) cs ∧ cs.getLast? = some '>'
  stops : opensWord (lastOr none taken) ∨ ¬ rest.head?.any startsSecret

structure Rule (m : Matcher) : Prop extends Anchored m where
  bounded : Bounded m
  hit : ∀ before taken rest instead, taken ≠ [] → m before (taken ++ rest) = some ⟨taken.length, instead⟩ →
    Hit taken rest instead

theorem Anchored.head_taken (hm : Anchored m) (hne : taken ≠ [])
    (h : m before (taken ++ rest) = some ⟨taken.length, instead⟩) : taken.head?.any startsSecret := by
  have hhead := (hm.opens _ _ (h ▸ Option.some_ne_none _)).2
  rwa [List.head?_append_of_ne_nil _ hne] at hhead

/-- What follows a place where a word may open can make a match in front of it only if a secret can do so too. -/
def Steady (m : Matcher) : Prop :=
  ∀ before a c t c' t', a ≠ [] → opensWord (lastOr before a) → startsSecret c → startsRewritten c' →
    m before (a ++ c :: t) = none → m before (a ++ c' :: t') = none

/-- What the first rule writes in place of a match begins no match of the second one, where a character that can
begin no secret still follows. -/
def Apart (m m' : Matcher) : Prop :=
  ∀ before taken rest instead out, m before (taken ++ rest) = some ⟨taken.length, instead⟩ →
    (¬ rest.head?.any startsSecret → out.head? = rest.head?) → m' before (instead ++ out) = none

/-- A rule leaves no match of another one but where it found one itself, if none begins with what it writes. -/
theorem Rule.clean_replaceFrom (hm : Rule m) (hm' : Anchored m') (hsteady : Steady m') (hapart : Apart m m')
    (hbefore : opensWord before = opensWord before' ∨ ¬ text.head?.any startsSecret)
    (h : Clean (missedBy m m') before text) : Clean m' before' (replaceFrom m before 0 text) := by
  induction before, text using scan_induction hm.bounded generalizing before' with
  | nil before => trivial
  | kept before c cs hnone ih =>
    rw [replaceFrom_kept hnone]
    refine ⟨?_, ih (.inl rfl) h.2⟩
    rcases hbefore with hbefore | hhead
    · have hmissed : m' before (c :: cs) = none := (missedBy_of_none hnone).symm.trans h.1
      rw [← hm'.congr _ _ _ hbefore]
      rcases replaceFrom_eq hm.bounded (some c) cs with
        heq | ⟨front, taken, rest, instead, out, rfl, hne, hfound, heq⟩
      · rwa [heq]
      -- up to the first match the text is the same, and there a word opens
      · obtain ⟨d, ds, rfl⟩ := List.exists_cons_of_ne_nil hne
        obtain ⟨e, es, rfl, he, -, -⟩ := (hm.hit _ _ _ _ hne hfound).written
        have hopens := (hm.opens _ _ (hfound ▸ Option.some_ne_none _)).1
        have hstart : (d :: ds).head?.any startsSecret := hm.head_taken hne hfound
        rw [heq]
        exact hsteady before (c :: front) d (ds ++ rest) e (es ++ out) (by simp) (by simpa using hopens) hstart he
          hmissed
    · exact hm'.eq_none fun hstart => hhead hstart.2
  | hit before taken rest instead hne hfound ih =>
    obtain ⟨d, ds, rfl⟩ := List.exists_cons_of_ne_nil hne
    have hhit := hm.hit _ _ _ _ hne hfound
    have hstart : (d :: ds).head?.any startsSecret := hm.head_taken hne hfound
    have hbefore : opensWord before = opensWord before' := hbefore.resolve_right fun hhead => hhead hstart
    rw [replaceFrom_hit hne hfound]
    obtain ⟨e, es, rfl, he, hinert, hlast⟩ := hhit.written
    refine ⟨?_, hm'.clean_of_inert hinert (ih ?_ h.of_append)⟩
    · rw [← hm'.congr _ _ _ hbefore]
      exact hapart _ _ _ _ _ hfound fun hhead => (hm.replaceFrom_head hhead _ none).2
    · have hmark : lastOr (some e) es = some '>' := by rw [lastOr, hlast]; rfl
      rw [hmark, lastOr_of_ne_nil hne before none]
      exact hhit.stops.imp_left fun hopens => hopens.trans (by decide)

theorem Rule.clean_replaceAll (hm : Rule m) (hm' : Anchored m') (hsteady : Steady m') (hapart : Apart m m')
    (h : Clean m' none text) : Clean m' none (replaceAll m text) := by
  refine hm.clean_replaceFrom hm' hsteady hapart (.inl rfl) (h.imp fun before text hnone => ?_)
  exact missedBy_eq_none fun _ => hnone

/-- A rule leaves no match where it can miss none. -/
theorem Rule.clean_of_missed (hm : Rule m) (hm' : Anchored m') (hsteady : Steady m') (hapart : Apart m m')
    (h : ∀ before text, m before text = none → m' before text = none) (text : List Char) :
    Clean m' none (replaceAll m text) :=
  hm.clean_replaceFrom hm' hsteady hapart (.inl rfl) (clean_of_forall (fun _ _ => missedBy_eq_none (h _ _)) _ _)

theorem Anchored.eq_none_of_mark (hm : Anchored m) (before : Option Char) (text : List Char) :
    m before ('<' :: text) = none :=
  hm.eq_none fun h => Bool.false_ne_true h.2

theorem Anchored.changing (hm : Anchored m) : Anchored (changing m) where
  congr before before' text h := by rw [Scan.changing, hm.congr _ _ _ h]; rfl
  opens before text h := hm.opens before text fun hnone => h (by simp [Scan.changing, hnone])

-- ---------------------------------------------------------------------------
-- What stands in front of a secret
-- ---------------------------------------------------------------------------

/-- A match that begins in front of a place where a word may open takes from there in any case if it does so with one
secret there, and otherwise it does not depend on what is there. -/
def Local (m : Matcher) : Prop :=
  ∀ before a c t c' t' f', a ≠ [] → opensWord (lastOr before a) → startsSecret c → startsRewritten c' →
    m before (a ++ c' :: t') = some f' →
    ∃ f, m before (a ++ c :: t) = some f ∧ f.instead = f'.instead ∧
      (startsSecret c' → f'.taken ≤ a.length → f.taken = f'.taken)

theorem Local.steady (hm : Local m) : Steady m := by
  intro before a c t c' t' hne hopens hc hc' hnone
  rw [Option.eq_none_iff_forall_not_mem]
  intro f' hf'
  obtain ⟨f, hf, -⟩ := hm before a c t c' t' f' hne hopens hc hc' hf'
  rw [hnone] at hf
  cases hf

theorem Local.both (hm : Local m) (hne : a ≠ []) (hopens : opensWord (lastOr before a)) (hc : startsSecret c)
    (hc' : startsSecret c') (t t' : List Char) :
    m before (a ++ c :: t) = none ∧ m before (a ++ c' :: t') = none ∨
      ∃ f f', m before (a ++ c :: t) = some f ∧ m before (a ++ c' :: t') = some f' ∧ f.instead = f'.instead ∧
        (f.taken = f'.taken ∨ a.length < f.taken ∧ a.length < f'.taken) := by
  have hstart := startsRewritten_of_startsSecret hc
  have hstart' := startsRewritten_of_startsSecret hc'
  cases hf' : m before (a ++ c' :: t') with
  | none => exact .inl ⟨hm.steady _ _ _ _ _ _ hne hopens hc' hstart hf', rfl⟩
  | some f' =>
    obtain ⟨f, hf, hinstead, hshort⟩ := hm before a c t c' t' f' hne hopens hc hstart' hf'
    obtain ⟨g', hg', -, hshort'⟩ := hm before a c' t' c t f hne hopens hc' hstart hf
    rw [hf'] at hg'
    cases hg'
    refine .inr ⟨f, f', hf, rfl, hinstead, ?_⟩
    by_cases hle : f'.taken ≤ a.length
    · exact .inl (hshort hc' hle)
    · by_cases hle' : f.taken ≤ a.length
      · exact .inl (hshort' hc hle').symm
      · exact .inr ⟨Nat.not_le.mp hle', Nat.not_le.mp hle⟩

theorem Local.frontOf_congr (hm : Local m) (hopens : opensWord (lastOr before text)) (hc : startsSecret c)
    (hc' : startsSecret c') (t t' : List Char) {skip skip' : Nat}
    (hskip : skip = skip' ∨ text.length < skip ∧ text.length < skip') :
    (frontOf m (c :: t) before skip text).written = (frontOf m (c' :: t') before skip' text).written ∧
      ((frontOf m (c :: t) before skip text).overhang = (frontOf m (c' :: t') before skip' text).overhang ∨
        0 < (frontOf m (c :: t) before skip text).overhang ∧
          0 < (frontOf m (c' :: t') before skip' text).overhang) := by
  induction text generalizing before skip skip' with
  | nil => exact ⟨rfl, hskip⟩
  | cons d ds ih =>
    rw [lastOr_cons] at hopens
    rw [List.length_cons] at hskip
    rcases skip with _ | k
    · obtain rfl : skip' = 0 := by omega
      rcases hm.both (List.cons_ne_nil d ds) (by simpa using hopens) hc hc' t t' with
        ⟨hnone, hnone'⟩ | ⟨f, f', hf, hf', hinstead, hreach⟩
      · obtain ⟨hwritten, hover⟩ := @ih (some d) hopens 0 0 (.inl rfl)
        rw [frontOf_kept hnone, frontOf_kept hnone']
        exact ⟨congrArg (d :: ·) hwritten, hover⟩
      · rw [List.length_cons] at hreach
        obtain ⟨hwritten, hover⟩ := @ih (some d) hopens (f.taken - 1) (f'.taken - 1) (by omega)
        rw [frontOf_found hf, frontOf_found hf', hinstead]
        exact ⟨congrArg (f'.instead ++ ·) hwritten, hover⟩
    · obtain ⟨k', rfl⟩ : ∃ k', skip' = k' + 1 := ⟨skip' - 1, by omega⟩
      rw [frontOf, frontOf]
      exact ih hopens (by omega)

/-- How far into a secret a match goes that began in front of it. -/
def Reaches (m : Matcher) (reach : List Char → Nat) : Prop :=
  ∀ before a c t f, a ≠ [] → opensWord (lastOr before a) → startsSecret c → m before (a ++ c :: t) = some f →
    a.length < f.taken → f.taken = a.length + reach (c :: t)

theorem Reaches.overhang_eq {reach : List Char → Nat} (hm : Reaches m reach) (hopens : opensWord (lastOr none text))
    (hc : startsSecret c) (h : Swallows m text (c :: t)) :
    (frontOf m (c :: t) none 0 text).overhang = reach (c :: t) := by
  rcases exists_of_overhang rfl h with ⟨hskip, -⟩ | ⟨a, b, f, u, rfl, hne, hf, htaken, -⟩
  · unfold Swallows at h
    omega
  · rw [lastOr_append] at hopens
    have hreach := hm _ _ _ _ _ hne hopens hc hf (by rw [htaken]; exact Nat.lt_add_of_pos_right h)
    omega

theorem Local.swallows_congr (hm : Local m) (hopens : opensWord (lastOr none text)) (hc : startsSecret c)
    (t t' : List Char) : Swallows m text (c :: t) ↔ Swallows m text (c :: t') := by
  unfold Swallows
  rcases (hm.frontOf_congr hopens hc hc t t' (.inl rfl)).2 with heq | ⟨hpos, hpos'⟩
  · rw [heq]
  · exact iff_of_true hpos hpos'

theorem Local.written_congr (hm : Local m) (hopens : opensWord (lastOr none text)) (hc : startsSecret c)
    (t t' : List Char) : (frontOf m (c :: t) none 0 text).written = (frontOf m (c :: t') none 0 text).written :=
  (hm.frontOf_congr hopens hc hc t t' (.inl rfl)).1

/-- A secret that no match in front of it reaches stands behind what becomes of the text there. -/
theorem Local.replaceAll_spared {k : List Char} (hm : Local m) (hopens : opensWord (lastOr none text))
    (hk : k.head?.any startsSecret) (h : ¬ Swallows m text k) (t : List Char) :
    replaceAll m (text ++ (k ++ t)) =
      (frontOf m k none 0 text).written ++ replaceFrom m (lastOr none text) 0 (k ++ t) := by
  match k with
  | c :: cs =>
    have hnone : (frontOf m (c :: (cs ++ t)) none 0 text).overhang = 0 :=
      Nat.eq_zero_of_not_pos fun hpos => h ((hm.swallows_congr hopens hk _ _).mp hpos)
    rw [List.cons_append, replaceAll, replaceFrom_append, hnone, hm.written_congr hopens hk _ cs]

/-- Of one that a match in front of it reaches only the rest is looked at, and kept where no secret begins. -/
theorem Local.replaceAll_reached {reach : List Char → Nat} {k q y s : List Char} (hm : Local m) (hanchored : Anchored m)
    (hreach : Reaches m reach) (hopens : opensWord (lastOr none text)) (hk : k.head?.any startsSecret)
    (h : Swallows m text k) (hy : ∀ c ∈ y, ¬ startsSecret c) (hs : ¬ s.head?.any startsSecret)
    (htaken : reach (k ++ (q ++ (y ++ s))) = (k ++ q).length) :
    replaceAll m (text ++ (k ++ (q ++ (y ++ s)))) = (frontOf m k none 0 text).written ++ (y ++ replaceAll m s) := by
  match k with
  | c :: cs =>
    have hover : (frontOf m (c :: (cs ++ (q ++ (y ++ s)))) none 0 text).overhang = (c :: cs ++ q).length :=
      (hreach.overhang_eq hopens hk ((hm.swallows_congr hopens hk _ _).mpr h)).trans htaken
    have hsplit : c :: (cs ++ (q ++ (y ++ s))) = (c :: cs ++ q) ++ (y ++ s) := by
      simp only [List.append_assoc, List.cons_append]
    rw [List.cons_append, replaceAll, replaceFrom_append, hover, hm.written_congr hopens hk _ cs, hsplit,
      replaceFrom_skip, hanchored.replaceFrom_plain hy hs]

theorem Rule.lastOr_instead {f : Match} (hm : Rule m) (h : m before text = some f) (b : Option Char) :
    lastOr b f.instead = some '>' := by
  obtain ⟨hpos, hle⟩ := hm.bounded _ _ _ h
  have hlength : (text.take f.taken).length = f.taken := List.length_take_of_le hle
  have hne : text.take f.taken ≠ [] := List.ne_nil_of_length_pos (by rwa [hlength])
  have hfound : m before (text.take f.taken ++ text.drop f.taken) = some ⟨(text.take f.taken).length, f.instead⟩ := by
    rw [List.take_append_drop, hlength, h]
  obtain ⟨c, cs, hcs, -, -, hlast⟩ := (hm.hit _ _ _ _ hne hfound).written
  rw [hcs, lastOr_cons, lastOr, hlast]
  rfl

theorem Rule.opensWord_frontOf (hm : Rule m) (more : List Char) (hopens : opensWord (lastOr before text)) {skip : Nat}
    (h : skip = 0 ∧ before' = before ∨ opensWord before') :
    opensWord (lastOr before' (frontOf m more before skip text).written) := by
  induction text generalizing before before' skip with
  | nil =>
    rcases h with ⟨-, rfl⟩ | h
    · exact hopens
    · exact h
  | cons c cs ih =>
    rw [lastOr_cons] at hopens
    rcases skip with _ | k
    · cases hf : m before (c :: cs ++ more) with
      | none =>
        rw [frontOf_kept hf, lastOr_cons]
        exact ih hopens (.inl ⟨rfl, rfl⟩)
      | some f =>
        rw [frontOf_found hf, lastOr_append, hm.lastOr_instead hf]
        exact ih hopens (.inr (by decide))
    · rw [frontOf]
      exact ih hopens (.inr (h.resolve_left fun hzero => Nat.succ_ne_zero k hzero.1))

end Vigil.Redaction
