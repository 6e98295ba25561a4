import Vigil.Proofs.Output.Bearer
import Vigil.Proofs.Output.NamedSecrets
import Vigil.Proofs.Output.WholeWords

/-!
# Whether a named secret can be seen

A named secret is hidden from the redacted line unless a match that begins in front of it takes its name and leaves
the value behind: a bearer token that ends in the name, or the value of another named secret that ends between the
name and the value. Then the value stays in sight, whatever is around it: `redact_conceals_iff`.
-/

namespace Vigil.Redaction

open CharClass Scan

variable {m : Matcher} {P : List Char → Prop} {mark : List Char} {before : Option Char} {c : Char}
  {p k sep value s w u r a t : List Char}

-- ---------------------------------------------------------------------------
-- Separators and values
-- ---------------------------------------------------------------------------

def IsSeparator (text : List Char) : Prop :=
  ∃ gap sep gap', text = gap ++ sep :: gap' ∧ (∀ c ∈ gap, isSpace c) ∧ (sep = ':' ∨ sep = '=') ∧ ∀ c ∈ gap', isSpace c

structure IsValue (value : List Char) : Prop where
  ne_nil : value ≠ []
  alnum : ∀ c ∈ value, isAsciiAlnum c
  other : value.map fold ≠ "bearer".toList

instance (value : List Char) : Decidable (IsValue value) :=
  decidable_of_iff (value ≠ [] ∧ value.all isAsciiAlnum ∧ value.map fold ≠ "bearer".toList)
    ⟨fun ⟨hne, halnum, hother⟩ => ⟨hne, List.all_eq_true.mp halnum, hother⟩,
      fun h => ⟨h.ne_nil, List.all_eq_true.mpr h.alnum, h.other⟩⟩

structure IsPlain (value : List Char) : Prop extends IsValue value where
  plain : ∀ c ∈ value, ¬ startsSecret c

theorem IsSeparator.of_mem (h : IsSeparator sep) (hc : c ∈ sep) : isSpace c ∨ c = ':' ∨ c = '=' := by
  obtain ⟨gap, sep, gap', rfl, hgap, hsep, hgap'⟩ := h
  rcases List.mem_append.mp hc with hc | hc
  · exact .inl (hgap c hc)
  rcases List.mem_cons.mp hc with rfl | hc
  · exact .inr hsep
  · exact .inl (hgap' c hc)

theorem IsSeparator.notWord (h : IsSeparator sep) (hc : c ∈ sep) : ¬ isWord c := by
  rcases h.of_mem hc with hc | rfl | rfl
  · exact not_isWord_of_isSpace hc
  · decide
  · decide

theorem IsSeparator.not_startsSecret (h : IsSeparator sep) (hc : c ∈ sep) : ¬ startsSecret c := fun hstart =>
  h.notWord hc (isWord_of_startsSecret hstart)

theorem IsSeparator.opensWord_behind (h : IsSeparator sep) (hr : ∀ c ∈ r, c ∈ sep) (hopens : opensWord before) :
    opensWord (lastOr before r) := by
  induction r generalizing before with
  | nil => exact hopens
  | cons c r ih =>
    obtain ⟨hc, hr⟩ := List.forall_mem_cons.mp hr
    rw [lastOr_cons]
    exact ih hr (by simp [opensWord, h.notWord hc])

theorem IsSeparator.valueChar (h : IsSeparator sep) (hc : c ∈ sep) (hspace : ¬ isSpace c) : isValueChar c := by
  rcases (h.of_mem hc).resolve_left hspace with rfl | rfl <;> decide

theorem IsValue.word (h : IsValue value) : ∀ c ∈ value, isWord c := fun c hc => isWord_of_isAsciiAlnum (h.alnum c hc)

theorem IsValue.valueChars (h : IsValue value) : ∀ c ∈ value, isValueChar c := fun c hc =>
  isValueChar_of_isWord (h.word c hc)

theorem IsPlain.plain_behind (h : IsPlain value) (hsep : IsSeparator sep) (hr : ∀ c ∈ r, c ∈ sep) :
    ∀ c ∈ r ++ value, ¬ startsSecret c := fun c hc =>
  (List.mem_append.mp hc).elim (fun hc => hsep.not_startsSecret (hr c hc)) (h.plain c)

theorem IsName.head (h : IsName k) : k.head?.any startsSecret := by
  obtain ⟨d, ds, rfl, hd, -⟩ := h.exists_cons
  exact hd

theorem IsName.letter_or_joint (h : IsName k) (hc : c ∈ k) : isAsciiLower (fold c) ∨ c = '_' ∨ c = '-' := by
  have hall : ∀ n ∈ names, n.all fun c => isAsciiLower c || isKeyJoint c := by decide
  have hfold := List.all_eq_true.mp (hall _ h) _ (List.mem_map_of_mem hc)
  by_cases hlower : isAsciiLower (fold c)
  · exact .inl hlower
  · refine .inr ?_
    rw [Bool.or_eq_true, or_iff_right hlower, fold_eq_self hlower] at hfold
    simpa [isKeyJoint] using hfold

theorem IsName.tokenChars (h : IsName k) : ∀ c ∈ k, isTokenChar c := by
  intro c hc
  rcases h.letter_or_joint hc with hlower | rfl | rfl
  · simp [isTokenChar, isAsciiAlnum, hlower]
  · decide
  · decide

theorem IsName.valueChars (h : IsName k) : ∀ c ∈ k, isValueChar c := by
  intro c hc
  rcases h.letter_or_joint hc with hlower | rfl | rfl
  · refine isValueChar_of_isWord ?_
    rw [← isWord_fold]
    exact isWord_of_isAsciiAlnum (by simp [isAsciiAlnum, hlower])
  · decide
  · decide

theorem IsValue.bearer_eq_none (h : IsValue value) (hs : ¬ s.head?.any isValueChar) (before : Option Char) :
    bearer before (value ++ s) = none := by
  rw [Option.eq_none_iff_forall_not_mem]
  intro f hf
  obtain ⟨-, word, blanks, x, heq, hfront, -, -⟩ := bearer_eq_some hf
  rcases List.append_eq_append_iff.mp heq with ⟨b, rfl, rfl⟩ | ⟨b, rfl, hblanks⟩
  · match b with
    | [] => exact h.other (by simpa using hfront.word)
    | e :: b =>
      refine hs (isValueChar_of_isWord ?_)
      have hletters : ∀ c ∈ "bearer".toList, isWord c := List.all_eq_true.mp (by decide)
      rw [← isWord_fold]
      refine hletters _ ?_
      rw [← hfront.word]
      exact List.mem_map_of_mem (List.mem_append_right _ List.mem_cons_self)
  · match b, blanks, hfront.ne_nil with
    | [], _, _ => exact h.other (by simpa using hfront.word)
    | e :: b, d :: blanks, _ =>
      obtain ⟨rfl, -⟩ := List.cons.inj hblanks
      exact not_isWord_of_isSpace (hfront.blanks _ List.mem_cons_self)
        (h.word _ (List.mem_append_right _ List.mem_cons_self))

-- ---------------------------------------------------------------------------
-- The name of the secret is left alone
-- ---------------------------------------------------------------------------

theorem replaceFrom_bearer (hk : IsName k) (hsep : IsSeparator sep) (hvalue : IsValue value)
    (hs : ¬ s.head?.any isValueChar) (before : Option Char) :
    replaceFrom bearer before 0 (k ++ (sep ++ (value ++ s))) = k ++ (sep ++ (value ++ replaceAll bearer s)) := by
  obtain ⟨d, ds, rfl, -, hd, hinert⟩ := hk.exists_cons
  obtain ⟨e, es, rfl⟩ := List.exists_cons_of_ne_nil hvalue.ne_nil
  have hword := List.forall_mem_cons.mp hvalue.word
  have hrest : replaceFrom bearer (some e) 0 (es ++ s) = es ++ replaceAll bearer s := by
    rw [anchored_bearer.replaceFrom_inert (inert_of_word hword.2 (by simp [opensWord, hword.1]))]
    exact congrArg (es ++ ·) (anchored_bearer.replaceFrom_head (not_startsSecret_of_not_isValueChar hs) _ none).1
  rw [List.cons_append, replaceFrom_kept (bearer_eq_none_of_head hd _ _),
    anchored_bearer.replaceFrom_inert (inert_of_startsRewritten hinert),
    anchored_bearer.replaceFrom_inert (inert_of_forall (fun c hc => hsep.not_startsSecret hc) _)]
  refine congrArg (fun x => d :: (ds ++ (sep ++ x))) ?_
  have hnone (before : Option Char) : bearer before (e :: (es ++ s)) = none := hvalue.bearer_eq_none hs before
  rw [List.cons_append, replaceFrom_kept (hnone _), hrest]
  rfl

/-- The name of a secret is where nothing can begin, but for a match of a bearer token in front of it. -/
theorem replaceAll_bearer_spared (hp : opensWord (lastOr none p)) (hk : IsName k) (hsep : IsSeparator sep)
    (hvalue : IsValue value) (hs : ¬ s.head?.any isValueChar) (h : ¬ Swallows bearer p k) :
    replaceAll bearer (p ++ (k ++ (sep ++ (value ++ s)))) =
      (frontOf bearer k none 0 p).written ++ (k ++ (sep ++ (value ++ replaceAll bearer s))) := by
  rw [local_bearer.replaceAll_spared hp hk.head h, replaceFrom_bearer hk hsep hvalue hs]

theorem replaceFrom_namedSecret (hopens : opensWord before) (hk : IsName k) (hsep : IsSeparator sep)
    (hvalue : IsValue value) (hs : ¬ s.head?.any isValueChar) :
    replaceFrom namedSecret before 0 (k ++ (sep ++ (value ++ s))) =
      k ++ '=' :: (redacted ++ replaceAll namedSecret s) := by
  obtain ⟨gap, sep, gap', rfl, hgap, hsep, hgap'⟩ := hsep
  have hfound := namedSecret_of_value hopens ⟨hk, hgap, hsep, hgap'⟩ hvalue.ne_nil hvalue.valueChars hs
  have hsplit : k ++ (gap ++ sep :: (gap' ++ (value ++ s))) = k ++ (gap ++ sep :: (gap' ++ value)) ++ s := by
    simp only [List.append_assoc, List.cons_append]
  rw [hsplit] at hfound
  rw [List.append_assoc, List.cons_append, hsplit, replaceFrom_hit (by simp) hfound, List.append_assoc,
    List.cons_append]
  refine congrArg (fun x => k ++ '=' :: (redacted ++ x)) ?_
  exact (anchored_namedSecret.replaceFrom_head (not_startsSecret_of_not_isValueChar hs) _ none).1

theorem replaceAll_namedSecret_spared (hw : opensWord (lastOr none w)) (hk : IsName k) (hsep : IsSeparator sep)
    (hvalue : IsValue value) (hs : ¬ s.head?.any isValueChar) (h : ¬ Swallows namedSecret w k) :
    replaceAll namedSecret (w ++ (k ++ (sep ++ (value ++ s)))) =
      (frontOf namedSecret k none 0 w).written ++ (k ++ '=' :: (redacted ++ replaceAll namedSecret s)) := by
  rw [local_namedSecret.replaceAll_spared hw hk.head h, replaceFrom_namedSecret hw hk hsep hvalue hs]

/-- The value of another named secret that goes through the separator takes all of this one. -/
theorem replaceAll_namedSecret_joined (hw : opensWord (lastOr none w)) (hk : IsName k) (hsep : IsSeparator sep)
    (hvalue : IsValue value) (hs : ¬ s.head?.any isValueChar) (h : Swallows namedSecret w k)
    (hspace : ∀ c ∈ sep, ¬ isSpace c) :
    replaceAll namedSecret (w ++ (k ++ (sep ++ (value ++ s)))) =
      (frontOf namedSecret k none 0 w).written ++ replaceAll namedSecret s := by
  have hrun : ∀ c ∈ k ++ (sep ++ value), isValueChar c := by
    intro c hc
    rcases List.mem_append.mp hc with hc | hc
    · exact hk.valueChars c hc
    rcases List.mem_append.mp hc with hc | hc
    · exact hsep.valueChar hc (hspace c hc)
    · exact hvalue.valueChars c hc
  have htaken : ((k ++ ((sep ++ value) ++ ([] ++ s))).takeWhile isValueChar).length = (k ++ (sep ++ value)).length := by
    rw [List.nil_append, ← List.append_assoc, takeWhile_run hrun hs]
  rw [← List.append_assoc sep]
  exact local_namedSecret.replaceAll_reached anchored_namedSecret reaches_namedSecret hw hk.head h (by simp)
    (not_startsSecret_of_not_isValueChar hs) htaken

-- ---------------------------------------------------------------------------
-- The value is left in sight
-- ---------------------------------------------------------------------------

/-- The value of another named secret that ends within the separator leaves this one's behind. -/
theorem replaceAll_namedSecret_parted (hw : opensWord (lastOr none w)) (hk : IsName k) (hsep : IsSeparator sep)
    (h : Swallows namedSecret w k) (hspace : ∃ c ∈ sep, isSpace c) :
    ∃ r, (∀ c ∈ r, c ∈ sep) ∧ ∀ value s, IsPlain value → ¬ s.head?.any startsSecret →
      replaceAll namedSecret (w ++ (k ++ (sep ++ (value ++ s)))) =
        (frontOf namedSecret k none 0 w).written ++ (r ++ (value ++ replaceAll namedSecret s)) := by
  obtain ⟨q, hq⟩ : ∃ q, q = sep.takeWhile isValueChar := ⟨_, rfl⟩
  obtain ⟨r, hr⟩ : ∃ r, r = sep.dropWhile isValueChar := ⟨_, rfl⟩
  have hsplit : q ++ r = sep := by
    rw [hq, hr, List.takeWhile_append_dropWhile]
  have hmem : ∀ c ∈ r, c ∈ sep := fun c hc => hsplit ▸ List.mem_append_right q hc
  have hvalues : ∀ c ∈ q, isValueChar c := fun c hc => List.mem_takeWhile_imp (hq ▸ hc)
  have hne : r ≠ [] := by
    rintro rfl
    obtain ⟨c, hc, hspace⟩ := hspace
    rw [← hsplit, List.append_nil] at hc
    exact not_isSpace_of_isValueChar (hvalues c hc) hspace
  refine ⟨r, hmem, fun value s hvalue hs => ?_⟩
  have hstop : ¬ (r ++ value ++ s).head?.any isValueChar := by
    rw [List.append_assoc, List.head?_append_of_ne_nil _ hne, hr]
    exact head_dropWhile isValueChar sep
  have hrun : ∀ c ∈ k ++ q, isValueChar c := fun c hc => (List.mem_append.mp hc).elim (hk.valueChars c) (hvalues c)
  have htaken : ((k ++ (q ++ ((r ++ value) ++ s))).takeWhile isValueChar).length = (k ++ q).length := by
    rw [← List.append_assoc k, takeWhile_run hrun hstop]
  rw [← hsplit, List.append_assoc q, ← List.append_assoc r, ← List.append_assoc r]
  exact local_namedSecret.replaceAll_reached anchored_namedSecret reaches_namedSecret hw hk.head h
    (hvalue.plain_behind hsep hmem) hs htaken

theorem IsSeparator.tokenLength_eq (hsep : IsSeparator sep) (ht : ¬ t.head?.any (· == '=')) :
    tokenLength (sep ++ t) = (sep.takeWhile (· == '=')).length := by
  have hstop : ∀ c ∈ sep, ¬ isTokenChar c := by
    intro c hc htoken
    rcases hsep.of_mem hc with hspace | rfl | rfl
    · exact not_isSpace_of_isTokenChar htoken hspace
    · exact absurd htoken (by decide)
    · exact absurd htoken (by decide)
  cases sep with
  | nil =>
    obtain ⟨gap, c, gap', heq, -⟩ := hsep
    simp at heq
  | cons d ds =>
    rw [← takeWhile_append_of_head ht]
    exact tokenLength_of_stop (hstop d List.mem_cons_self) _

/-- A bearer token that ends in the name leaves the value behind. -/
theorem replaceAll_bearer_swallowed (hp : opensWord (lastOr none p)) (hk : IsName k) (hsep : IsSeparator sep)
    (h : Swallows bearer p k) :
    ∃ u r, (∀ c ∈ r, c ∈ sep) ∧ ∀ value s, IsPlain value → ¬ s.head?.any startsSecret →
      replaceAll bearer (p ++ (k ++ (sep ++ (value ++ s)))) =
        u ++ (bearerPlaceholder ++ (r ++ (value ++ replaceAll bearer s))) := by
  obtain ⟨u, hu⟩ : ∃ u, (frontOf bearer k none 0 p).written = u ++ bearerPlaceholder := by
    rcases exists_of_overhang rfl h with ⟨hskip, -⟩ | ⟨_, _, f, u, -, -, hf, -, hwritten⟩
    · unfold Swallows at h
      omega
    · obtain ⟨-, _, _, _, -, -, -, rfl⟩ := bearer_eq_some hf
      exact ⟨u, hwritten⟩
  obtain ⟨q, hq⟩ : ∃ q, q = sep.takeWhile (· == '=') := ⟨_, rfl⟩
  obtain ⟨r, hr⟩ : ∃ r, r = sep.dropWhile (· == '=') := ⟨_, rfl⟩
  have hsplit : q ++ r = sep := by
    rw [hq, hr, List.takeWhile_append_dropWhile]
  have hmem : ∀ c ∈ r, c ∈ sep := fun c hc => hsplit ▸ List.mem_append_right q hc
  refine ⟨u, r, hmem, fun value s hvalue hs => ?_⟩
  have hhead : ¬ (value ++ s).head?.any (· == '=') := by
    obtain ⟨c, cs, rfl⟩ := List.exists_cons_of_ne_nil hvalue.ne_nil
    intro heq
    have halnum := hvalue.alnum c List.mem_cons_self
    rw [show c = '=' from beq_iff_eq.mp heq] at halnum
    exact absurd halnum (by decide)
  have htaken : tokenLength (k ++ (q ++ ((r ++ value) ++ s))) = (k ++ q).length := by
    rw [List.append_assoc r, ← List.append_assoc q, hsplit, tokenLength_append hk.tokenChars, hsep.tokenLength_eq hhead,
      List.length_append, hq]
  rw [← hsplit, List.append_assoc q, ← List.append_assoc r, ← List.append_assoc u, ← List.append_assoc r, ← hu]
  exact local_bearer.replaceAll_reached anchored_bearer reaches_bearer hp hk.head h (hvalue.plain_behind hsep hmem) hs
    htaken

theorem SecretFront.ne_append_blank {name gap gap' : List Char} {sep : Char} (h : SecretFront name gap sep gap')
    (hlast : a.getLast? = some 'r') (b : List Char) : name ++ (gap ++ sep :: gap') ≠ a ++ ' ' :: b := by
  have hname : name.getLast? ≠ some 'r' := by
    have hall : ∀ n ∈ names, n.getLast? ≠ some 'r' := by decide
    intro heq
    refine hall _ h.name ?_
    rw [List.getLast?_map, heq]
    rfl
  have hsep : IsSeparator (gap ++ sep :: gap') := ⟨gap, sep, gap', rfl, h.gap, h.sep, h.gap'⟩
  intro heq
  rcases List.append_eq_append_iff.mp heq with ⟨m, rfl, hm⟩ | ⟨m, rfl, hm⟩
  · cases m with
    | nil => exact hname (by rwa [List.append_nil] at hlast)
    | cons d m =>
      rw [List.getLast?_append_of_ne_nil _ (List.cons_ne_nil d m)] at hlast
      have hmem : 'r' ∈ gap ++ sep :: gap' := hm ▸ List.mem_append_left _ (List.mem_of_getLast? hlast)
      exact hsep.notWord hmem (by decide)
  · cases m with
    | nil => exact hname (by rwa [List.append_nil])
    | cons d m =>
      obtain ⟨rfl, -⟩ := List.cons.inj hm
      have hmem : ' ' ∈ a ++ ' ' :: m := List.mem_append_right _ List.mem_cons_self
      rcases h.name.letter_or_joint hmem with hlower | hjoint | hjoint
      · exact absurd hlower (by decide)
      · exact absurd hjoint (by decide)
      · exact absurd hjoint (by decide)

theorem closed_namedSecret (t t' : List Char) : Closed namedSecret (· = some 'r') (' ' :: t) (' ' :: t') := by
  intro before a hne hlast
  have hblank : ¬ isValueChar ' ' := by decide
  have hshort (t : List Char) {f : Match} (hf : namedSecret before (a ++ ' ' :: t) = some f) :
      f.taken ≤ a.length ∧ ∀ t', namedSecret before (a ++ ' ' :: t') = some f := by
    obtain ⟨hopens, name, gap, sep, gap', x, heq, hfront, hx, rfl⟩ := namedSecret_eq_some hf
    obtain ⟨b, rfl, rfl⟩ : ∃ b, a = name ++ (gap ++ sep :: (gap' ++ b)) ∧ x = b ++ ' ' :: t := by
      have hwhole : a ++ ' ' :: t = (name ++ (gap ++ sep :: gap')) ++ x := by
        simpa only [List.append_assoc, List.cons_append] using heq
      rcases List.append_eq_append_iff.mp hwhole with ⟨b, hb, hrest⟩ | ⟨b, rfl, rfl⟩
      · cases b with
        | nil =>
          rw [List.nil_append] at hrest
          exact absurd hx (hrest ▸ hblank)
        | cons d b =>
          obtain ⟨rfl, -⟩ := List.cons.inj hrest
          exact absurd hb (hfront.ne_append_blank hlast b)
      · exact ⟨b, by simp only [List.append_assoc, List.cons_append], rfl⟩
    have hhead (t' : List Char) : (b ++ ' ' :: t').head?.any isValueChar := by
      cases b with
      | nil => exact absurd hx hblank
      | cons c b => exact hx
    have hsplit (t' : List Char) : name ++ (gap ++ sep :: (gap' ++ b)) ++ ' ' :: t' =
        name ++ (gap ++ sep :: (gap' ++ (b ++ ' ' :: t'))) := by
      simp only [List.append_assoc, List.cons_append]
    refine ⟨?_, fun t' => ?_⟩
    · have hle := length_takeWhile_le hblank b t
      simp only [List.length_append, List.length_cons]
      omega
    · rw [hsplit, namedSecret_eq hopens hfront (hhead t'), takeWhile_of_stop hblank hblank b t' t]
  exact ⟨Option.ext fun f => ⟨fun hf => (hshort t hf).2 t', fun hf => (hshort t' hf).2 t⟩, fun f hf => (hshort t hf).1⟩

theorem replaceAll_namedSecret_behind (u : List Char) (hsep : IsSeparator sep) (hr : ∀ c ∈ r, c ∈ sep) :
    ∃ w, ∀ value s, IsPlain value → ¬ s.head?.any startsSecret →
      replaceAll namedSecret (u ++ (bearerPlaceholder ++ (r ++ (value ++ s)))) =
        (w ++ ' ' :: redacted) ++ (r ++ (value ++ replaceAll namedSecret s)) := by
  obtain ⟨a, ha⟩ : ∃ a, a = u ++ "Bearer".toList := ⟨_, rfl⟩
  have hlast : a.getLast? = some 'r' := by
    rw [ha, List.getLast?_append_of_ne_nil _ (by decide)]
    decide
  refine ⟨(frontOf namedSecret [' '] none 0 a).written, fun value s hvalue hs => ?_⟩
  have hsplit : u ++ (bearerPlaceholder ++ (r ++ (value ++ s))) = a ++ ' ' :: (redacted ++ ((r ++ value) ++ s)) := by
    have hplaceholder : bearerPlaceholder = "Bearer".toList ++ ' ' :: redacted := by decide
    rw [ha, hplaceholder]
    simp only [List.append_assoc, List.cons_append]
  obtain ⟨hover, hfront⟩ := (closed_namedSecret (redacted ++ ((r ++ value) ++ s)) []).frontOf_eq none
    (fun _ => hlast) (Nat.zero_le _)
  have hinert : inert startsSecret (lastOr none a) (' ' :: redacted) :=
    inert_cons.mpr ⟨fun hstart => absurd hstart.2 (by decide), by decide⟩
  rw [hsplit, replaceAll, replaceFrom_append, hover, hfront, ← List.cons_append,
    anchored_namedSecret.replaceFrom_inert hinert,
    anchored_namedSecret.replaceFrom_plain (hvalue.plain_behind hsep hr) hs]
  simp only [List.append_assoc]

/-- What is put in one place of a text can be seen there. -/
def InSight (text : List Char → List Char) : Prop :=
  ∃ a t, opensWord (lastOr none a) ∧ ¬ t.head?.any startsSecret ∧ ∀ v, IsPlain v → text v = a ++ (v ++ t)

theorem InSight.ne {text : List Char → List Char} (h : InSight text) : text ['x'] ≠ text ['y'] := by
  obtain ⟨a, t, -, -, htext⟩ := h
  have hx : IsPlain ['x'] := ⟨by decide, by simp [show ¬ startsSecret 'x' by decide]⟩
  have hy : IsPlain ['y'] := ⟨by decide, by simp [show ¬ startsSecret 'y' by decide]⟩
  rw [htext _ hx, htext _ hy]
  intro heq
  have hcons := List.append_cancel_left heq
  exact absurd (List.cons.inj hcons).1 (by decide)

theorem WordRule.inSight {text : List Char → List Char} (hm : WordRule m P mark) (h : InSight text) :
    InSight fun v => replaceAll m (text v) := by
  obtain ⟨a, t, hopens, ht, htext⟩ := h
  refine ⟨(frontOf m [] none 0 a).written, replaceAll m t, hm.rule.opensWord_frontOf _ hopens (.inl ⟨rfl, rfl⟩), ?_,
    fun v hv => ?_⟩
  · rwa [hm.anchored.head?_replaceAll ht]
  · rw [lastOr_none] at hopens
    obtain ⟨hover, hfront⟩ := (hm.closed (v ++ t) []).frontOf_eq none (fun _ => hopens) (Nat.zero_le _)
    simp only [htext v hv]
    rw [replaceAll, replaceFrom_append, hover, hfront, hm.anchored.replaceFrom_plain hv.plain ht]

-- ---------------------------------------------------------------------------
-- The whole line
-- ---------------------------------------------------------------------------

/-- The name of a secret, or the place of its value, is taken by a match that begins in front of it: a bearer token
goes on into the name, or the value of another named secret does and ends at a blank in front of the value. -/
def Robbed (p k sep : List Char) : Prop :=
  Swallows bearer p k ∨ Swallows namedSecret (frontOf bearer k none 0 p).written k ∧ ∃ c ∈ sep, isSpace c

instance (p k sep : List Char) : Decidable (Robbed p k sep) :=
  decidable_of_iff
    (Swallows bearer p k ∨ Swallows namedSecret (frontOf bearer k none 0 p).written k ∧ sep.any isSpace)
    (by rw [Robbed, List.any_eq_true])

theorem inSight_of_bearer (hp : opensWord (lastOr none p)) (hk : IsName k) (hsep : IsSeparator sep)
    (hs : ¬ s.head?.any startsSecret) (h : Swallows bearer p k) :
    InSight fun v => replaceAll namedSecret (replaceAll bearer (p ++ (k ++ (sep ++ (v ++ s))))) := by
  obtain ⟨u, r, hr, hpass⟩ := replaceAll_bearer_swallowed hp hk hsep h
  obtain ⟨w, hpass'⟩ := replaceAll_namedSecret_behind u hsep hr
  have hs' : ¬ (replaceAll bearer s).head?.any startsSecret := by rwa [anchored_bearer.head?_replaceAll hs]
  refine ⟨(w ++ ' ' :: redacted) ++ r, replaceAll namedSecret (replaceAll bearer s), ?_, ?_, fun v hv => ?_⟩
  · have hmark : lastOr none (w ++ ' ' :: redacted) = some '>' := by
      rw [lastOr_append]
      rfl
    rw [lastOr_append, hmark]
    exact hsep.opensWord_behind hr (by decide)
  · rwa [anchored_namedSecret.head?_replaceAll hs']
  · calc replaceAll namedSecret (replaceAll bearer (p ++ (k ++ (sep ++ (v ++ s)))))
        = replaceAll namedSecret (u ++ (bearerPlaceholder ++ (r ++ (v ++ replaceAll bearer s)))) := by
          rw [hpass v s hv hs]
      _ = (w ++ ' ' :: redacted) ++ (r ++ (v ++ replaceAll namedSecret (replaceAll bearer s))) := hpass' v _ hv hs'
      _ = ((w ++ ' ' :: redacted) ++ r) ++ (v ++ replaceAll namedSecret (replaceAll bearer s)) :=
          (List.append_assoc _ _ _).symm

theorem inSight_of_namedSecret (hp : opensWord (lastOr none p)) (hk : IsName k) (hsep : IsSeparator sep)
    (hs : ¬ s.head?.any isValueChar) (hbearer : ¬ Swallows bearer p k)
    (h : Swallows namedSecret (frontOf bearer k none 0 p).written k) (hspace : ∃ c ∈ sep, isSpace c) :
    InSight fun v => replaceAll namedSecret (replaceAll bearer (p ++ (k ++ (sep ++ (v ++ s))))) := by
  obtain ⟨w, hw⟩ : ∃ w, w = (frontOf bearer k none 0 p).written := ⟨_, rfl⟩
  have hopens : opensWord (lastOr none w) := hw ▸ rule_bearer.opensWord_frontOf k hp (.inl ⟨rfl, rfl⟩)
  rw [← hw] at h
  obtain ⟨r, hr, hpass⟩ := replaceAll_namedSecret_parted hopens hk hsep h hspace
  obtain ⟨a, ha⟩ : ∃ a, a = (frontOf namedSecret k none 0 w).written := ⟨_, rfl⟩
  have hopens' : opensWord (lastOr none a) := ha ▸ rule_namedSecret.opensWord_frontOf k hopens (.inl ⟨rfl, rfl⟩)
  have hstart := not_startsSecret_of_not_isValueChar hs
  have hs' : ¬ (replaceAll bearer s).head?.any startsSecret := by rwa [anchored_bearer.head?_replaceAll hstart]
  refine ⟨a ++ r, replaceAll namedSecret (replaceAll bearer s), ?_, ?_, fun v hv => ?_⟩
  · rw [lastOr_append]
    exact hsep.opensWord_behind hr hopens'
  · rwa [anchored_namedSecret.head?_replaceAll hs']
  · calc replaceAll namedSecret (replaceAll bearer (p ++ (k ++ (sep ++ (v ++ s)))))
        = replaceAll namedSecret (w ++ (k ++ (sep ++ (v ++ replaceAll bearer s)))) := by
          rw [replaceAll_bearer_spared hp hk hsep hv.toIsValue hs hbearer, hw]
      _ = a ++ (r ++ (v ++ replaceAll namedSecret (replaceAll bearer s))) := by rw [hpass v _ hv hs', ha]
      _ = (a ++ r) ++ (v ++ replaceAll namedSecret (replaceAll bearer s)) := (List.append_assoc _ _ _).symm

theorem inSight_of_robbed (hp : opensWord (lastOr none p)) (hk : IsName k) (hsep : IsSeparator sep)
    (hs : ¬ s.head?.any isValueChar) (h : Robbed p k sep) :
    InSight fun v => redactChars (p ++ (k ++ (sep ++ (v ++ s)))) := by
  suffices hsight : InSight fun v => replaceAll namedSecret (replaceAll bearer (p ++ (k ++ (sep ++ (v ++ s))))) from
    wordRule_longHex.inSight (wordRule_accessKey.inSight hsight)
  by_cases hbearer : Swallows bearer p k
  · exact inSight_of_bearer hp hk hsep (not_startsSecret_of_not_isValueChar hs) hbearer
  · obtain ⟨hnamed, hspace⟩ := h.resolve_left hbearer
    exact inSight_of_namedSecret hp hk hsep hs hbearer hnamed hspace

/-- Nothing robs a secret where in front of it neither the word of a bearer nor the name of a secret stands. -/
theorem not_robbed (hp : opensWord (lastOr none p)) (hk : IsName k)
    (hbearer : ∀ a word blanks b, p = a ++ (word ++ (blanks ++ b)) → ¬ BearerFront word blanks)
    (hnamed : ∀ a name gap sep gap' b, p = a ++ (name ++ (gap ++ sep :: (gap' ++ b))) → ¬ SecretFront name gap sep gap')
    (sep : List Char) : ¬ Robbed p k sep := by
  obtain ⟨c, cs, rfl, hc, -⟩ := hk.exists_cons
  have hstart := startsRewritten_of_startsSecret hc
  have hkept : frontOf bearer (c :: cs) none 0 p = ⟨p, 0⟩ := by
    refine frontOf_of_none fun a b heq hne => Option.eq_none_iff_forall_not_mem.mpr fun f hf => ?_
    obtain ⟨-, word, blanks, x, htext, hfront, -⟩ := bearer_eq_some hf
    obtain ⟨d, ds, hds, -, hinert⟩ := hfront.exists_cons
    rw [heq, lastOr_append] at hp
    rw [← List.append_assoc, hds] at htext
    obtain ⟨b', rfl, -⟩ := append_of_inert hinert hne hp hstart htext.symm
    exact hbearer a word blanks b' (by rw [heq, ← hds, List.append_assoc]) hfront
  have hkept' : frontOf namedSecret (c :: cs) none 0 p = ⟨p, 0⟩ := by
    refine frontOf_of_none fun a b heq hne => Option.eq_none_iff_forall_not_mem.mpr fun f hf => ?_
    obtain ⟨-, name, gap, sep, gap', x, htext, hfront, -⟩ := namedSecret_eq_some hf
    obtain ⟨d, ds, hds, hinert⟩ := hfront.exists_cons
    have hwhole (y : List Char) : name ++ (gap ++ sep :: (gap' ++ y)) = d :: ds ++ y := by
      rw [← hds]
      simp only [List.append_assoc, List.cons_append]
    rw [heq, lastOr_append] at hp
    rw [hwhole] at htext
    obtain ⟨b', rfl, -⟩ := append_of_inert hinert hne hp hstart htext.symm
    exact hnamed a name gap sep gap' b' (by rw [heq, hwhole]) hfront
  simp [Robbed, Swallows, hkept, hkept']

theorem redactChars_eq_of_not_robbed (hp : opensWord (lastOr none p)) (hk : IsName k) (hsep : IsSeparator sep)
    (hs : ¬ s.head?.any isValueChar) (h : ¬ Robbed p k sep) {v v' : List Char} (hv : IsValue v) (hv' : IsValue v') :
    redactChars (p ++ (k ++ (sep ++ (v ++ s)))) = redactChars (p ++ (k ++ (sep ++ (v' ++ s)))) := by
  obtain ⟨hbearer, hnamed⟩ := not_or.mp h
  have hs' : ¬ (replaceAll bearer s).head?.any isValueChar := by
    rwa [anchored_bearer.head?_replaceAll (not_startsSecret_of_not_isValueChar hs)]
  suffices hsame : replaceAll namedSecret (replaceAll bearer (p ++ (k ++ (sep ++ (v ++ s))))) =
      replaceAll namedSecret (replaceAll bearer (p ++ (k ++ (sep ++ (v' ++ s))))) from
    congrArg (fun text => replaceAll longHex (replaceAll accessKey text)) hsame
  rw [replaceAll_bearer_spared hp hk hsep hv hs hbearer, replaceAll_bearer_spared hp hk hsep hv' hs hbearer]
  generalize hw : (frontOf bearer k none 0 p).written = w at *
  have hopens : opensWord (lastOr none w) := hw ▸ rule_bearer.opensWord_frontOf k hp (.inl ⟨rfl, rfl⟩)
  by_cases hswallows : Swallows namedSecret w k
  · have hspace : ∀ c ∈ sep, ¬ isSpace c := fun c hc hspace => hnamed ⟨hswallows, c, hc, hspace⟩
    rw [replaceAll_namedSecret_joined hopens hk hsep hv hs' hswallows hspace,
      replaceAll_namedSecret_joined hopens hk hsep hv' hs' hswallows hspace]
  · rw [replaceAll_namedSecret_spared hopens hk hsep hv hs' hswallows,
      replaceAll_namedSecret_spared hopens hk hsep hv' hs' hswallows]

/-- The value of a named secret has no part in the redacted line unless the secret is robbed of its name, and then
it has. -/
theorem redact_conceals_iff (hp : opensWord p.getLast?) (hk : IsName k) (hsep : IsSeparator sep)
    (hs : ¬ s.head?.any isValueChar) :
    (∀ v v', IsValue v → IsValue v' →
      redact (String.ofList (p ++ (k ++ (sep ++ (v ++ s))))) =
        redact (String.ofList (p ++ (k ++ (sep ++ (v' ++ s)))))) ↔
    ¬ Robbed p k sep := by
  rw [← lastOr_none] at hp
  simp only [redact, String.toList_ofList]
  constructor
  · intro hall hrobbed
    refine (inSight_of_robbed hp hk hsep hs hrobbed).ne ?_
    exact String.ofList_injective (hall ['x'] ['y'] (by decide) (by decide))
  · intro hspared v v' hv hv'
    exact congrArg String.ofList (redactChars_eq_of_not_robbed hp hk hsep hs hspared hv hv')

theorem retry_concealed :
    ¬ Robbed "retry with ".toList "API-Key".toList " : ".toList ∧
      redact "retry with API-Key : abc1, twice" = redact "retry with API-Key : zz9, twice" := by
  have hspared : ¬ Robbed "retry with ".toList "API-Key".toList " : ".toList := by decide +kernel
  refine ⟨hspared, ?_⟩
  have hblank : ∀ c ∈ [' '], isSpace c := List.all_eq_true.mp (by decide)
  have hsep : IsSeparator " : ".toList := ⟨[' '], ':', [' '], by decide, hblank, .inl rfl, hblank⟩
  exact (redact_conceals_iff (p := "retry with ".toList) (by decide) (by decide) hsep (by decide)).mpr hspared
    "abc1".toList "zz9".toList (by decide) (by decide)

theorem bearer_takes_name :
    (opensWord "Bearer ".toList.getLast? ∧ IsName "token".toList ∧ IsSeparator "=".toList ∧ IsValue "abc".toList ∧
      IsValue "def".toList) ∧
    redact "Bearer token=abc" = "Bearer <REDACTED>abc" ∧ redact "Bearer token=abc" ≠ redact "Bearer token=def" := by
  refine ⟨⟨by decide, by decide, ⟨[], '=', [], by decide, by simp, .inr rfl, by simp⟩, by decide, by decide⟩, ?_, ?_⟩
  · decide +kernel
  · decide +kernel

example : redactChars "token: password = abc".toList = "token=<REDACTED> = abc".toList := by decide +kernel

end Vigil.Redaction
