import Vigil.Proofs.Output.Rules
import Vigil.Proofs.Text.Runs

/-!
# Named secrets

The name of a secret, a colon or an equals sign, and a value that goes on to the next blank, comma or semicolon:
`namedSecret_eq` and `namedSecret_eq_some`. The rule for them lets no secret that follows change what it finds in
front of that one.
-/

namespace Vigil.Redaction

open CharClass Scan

variable {before : Option Char} {f : Match} {c c' sep : Char}
  {a t t' text taken rest instead name gap gap' value x : List Char}

def names : List (List Char) :=
  ["api_key", "api-key", "apikey", "token", "secret", "password"].map String.toList

def IsName (name : List Char) : Prop := name.map fold ∈ names

instance (name : List Char) : Decidable (IsName name) := inferInstanceAs (Decidable (_ ∈ _))

/-- The name of a secret, and a colon or an equals sign with any blanks around it. -/
structure SecretFront (name gap : List Char) (sep : Char) (gap' : List Char) : Prop where
  name : IsName name
  gap : ∀ c ∈ gap, isSpace c
  sep : sep = ':' ∨ sep = '='
  gap' : ∀ c ∈ gap', isSpace c

theorem afterApiKey?_eq_some_iff :
    afterApiKey? text = some rest ↔ ∃ name, text = name ++ rest ∧ name.map fold ∈ names.take 3 := by
  constructor
  · intro h
    unfold afterApiKey? at h
    split at h
    · cases h
    · cases h
    · rename_i c after hafter
      obtain ⟨api, rfl, hapi⟩ := afterFolded?_eq_some_iff.mp hafter
      by_cases hjoint : isKeyJoint c
      · rw [if_pos hjoint] at h
        obtain ⟨key, rfl, hkey⟩ := afterFolded?_eq_some_iff.mp h
        refine ⟨api ++ c :: key, by simp, ?_⟩
        rw [List.map_append, List.map_cons, hapi, hkey]
        rcases Bool.or_eq_true_iff.mp hjoint with hc | hc <;> rw [beq_iff_eq.mp hc] <;> decide
      · rw [if_neg hjoint] at h
        obtain ⟨key, hsplit, hkey⟩ := afterFolded?_eq_some_iff.mp h
        refine ⟨api ++ key, by rw [hsplit, List.append_assoc], ?_⟩
        rw [List.map_append, hapi, hkey]
        decide
  · rintro ⟨name, rfl, hname⟩
    obtain ⟨k, hk, hname⟩ : ∃ k ∈ [['_'], ['-'], []], name.map fold = "api".toList ++ (k ++ "key".toList) := by
      simpa [names] using hname
    obtain ⟨api, more, rfl, hapi, hmore⟩ := List.map_eq_append_iff.mp hname
    obtain ⟨joint, key, rfl, hjoint, hkey⟩ := List.map_eq_append_iff.mp hmore
    have hafter : afterFolded? "api".toList ((api ++ (joint ++ key)) ++ rest) = some (joint ++ (key ++ rest)) :=
      afterFolded?_eq_some_iff.mpr ⟨api, by simp only [List.append_assoc], hapi⟩
    have hend : afterFolded? "key".toList (key ++ rest) = some rest := afterFolded?_eq_some_iff.mpr ⟨key, rfl, hkey⟩
    rw [afterApiKey?, hafter]
    match joint, hjoint, key, hkey with
    | [], _, c :: key, hkey =>
      have hno : ¬ isKeyJoint c := by
        intro hc
        have hfold := (List.cons.inj hkey).1
        rcases Bool.or_eq_true_iff.mp hc with hc | hc <;>
          rw [beq_iff_eq.mp hc] at hfold <;> exact absurd hfold (by decide)
      simpa [hno] using hend
    | [c], hjoint, key, hkey =>
      have hyes : isKeyJoint c := by
        have hfold : fold c = '_' ∨ fold c = '-' := by simpa [← hjoint] using hk
        have hsame : fold c = c := by
          refine fold_eq_self ?_
          rcases hfold with h | h <;> rw [h] <;> decide
        rw [hsame] at hfold
        rcases hfold with rfl | rfl <;> rfl
      simpa [hyes] using hend
    | _ :: _ :: _, hjoint, _, _ =>
      subst hjoint
      simp at hk

theorem afterName?_eq_some_iff : afterName? text = some rest ↔ ∃ name, text = name ++ rest ∧ IsName name := by
  constructor
  · intro h
    rcases Option.or_eq_some_iff.mp h with h | ⟨-, h⟩
    · obtain ⟨name, hname, hmem⟩ := afterApiKey?_eq_some_iff.mp h
      exact ⟨name, hname, List.mem_of_mem_take hmem⟩
    have hword {w : List Char} (hw : w ∈ names) (h : afterFolded? w text = some rest) :
        ∃ name, text = name ++ rest ∧ IsName name := by
      obtain ⟨name, hname, rfl⟩ := afterFolded?_eq_some_iff.mp h
      exact ⟨name, hname, hw⟩
    rcases Option.or_eq_some_iff.mp h with h | ⟨-, h⟩
    · exact hword (by decide) h
    rcases Option.or_eq_some_iff.mp h with h | ⟨-, h⟩
    · exact hword (by decide) h
    · exact hword (by decide) h
  · rintro ⟨name, rfl, hname⟩
    have hkind : name.map fold ∈ names.take 3 ∨ name.map fold ∈ names.drop 3 := by
      rw [← List.mem_append, List.take_append_drop]
      exact hname
    rcases hkind with hkey | hword
    · rw [afterName?, afterApiKey?_eq_some_iff.mpr ⟨name, rfl, hkey⟩]
      rfl
    match name, hword with
    | c :: cs, hword =>
      have hafter : afterFolded? ((c :: cs).map fold) (c :: cs ++ rest) = some rest :=
        afterFolded?_eq_some_iff.mpr ⟨c :: cs, rfl, rfl⟩
      have hother {d : Char} (w : List Char) (hd : fold c ≠ d) : afterFolded? (d :: w) (c :: cs ++ rest) = none :=
        if_neg hd
      have hapi (hd : fold c ≠ 'a') : afterApiKey? (c :: cs ++ rest) = none := by
        have hnone : afterFolded? "api".toList (c :: cs ++ rest) = none := hother "pi".toList hd
        rw [afterApiKey?, hnone]
      have hword : (c :: cs).map fold = "token".toList ∨ (c :: cs).map fold = "secret".toList ∨
          (c :: cs).map fold = "password".toList := by simpa [names] using hword
      rcases hword with h | h | h
      · have hc : fold c = 't' := (List.cons.inj h).1
        rw [afterName?, hapi (by rw [hc]; decide), ← h, hafter]
        rfl
      · have hc : fold c = 's' := (List.cons.inj h).1
        have htoken : afterFolded? "token".toList (c :: cs ++ rest) = none := hother "oken".toList (by rw [hc]; decide)
        rw [afterName?, hapi (by rw [hc]; decide), htoken, ← h, hafter]
        rfl
      · have hc : fold c = 'p' := (List.cons.inj h).1
        have htoken : afterFolded? "token".toList (c :: cs ++ rest) = none := hother "oken".toList (by rw [hc]; decide)
        have hsecret : afterFolded? "secret".toList (c :: cs ++ rest) = none :=
          hother "ecret".toList (by rw [hc]; decide)
        rw [afterName?, hapi (by rw [hc]; decide), htoken, hsecret, ← h, hafter]
        rfl

theorem not_isSpace_of_isValueChar (h : isValueChar c) : ¬ isSpace c := by
  intro hspace
  simp [isValueChar, hspace] at h

theorem SecretFront.not_isSpace_sep (h : SecretFront name gap sep gap') : ¬ isSpace sep := by
  rcases h.sep with rfl | rfl <;> decide

theorem SecretFront.endsWord (h : SecretFront name gap sep gap') (t : List Char) : endsWord (gap ++ sep :: t) := by
  have hhead : ∀ c ∈ (gap ++ sep :: t).head?, ¬ isWord c := by
    have hgap := h.gap
    intro c hc
    cases gap with
    | nil =>
      cases hc
      rcases h.sep with rfl | rfl <;> decide
    | cons d gap =>
      cases hc
      exact not_isWord_of_isSpace (hgap _ List.mem_cons_self)
  cases hc : (gap ++ sep :: t).head? with
  | none => simp [Scan.endsWord, hc]
  | some c => simpa [Scan.endsWord, hc] using hhead c hc

theorem namedSecret_eq (hopens : opensWord before) (h : SecretFront name gap sep gap') (hx : x.head?.any isValueChar) :
    namedSecret before (name ++ (gap ++ sep :: (gap' ++ x))) =
      some ⟨name.length + gap.length + 1 + gap'.length + (x.takeWhile isValueChar).length,
        name ++ '=' :: redacted⟩ := by
  have hafter : afterName? (name ++ (gap ++ sep :: (gap' ++ x))) = some (gap ++ sep :: (gap' ++ x)) :=
    afterName?_eq_some_iff.mpr ⟨name, rfl, h.name⟩
  have hname : (name ++ (gap ++ sep :: (gap' ++ x))).take
      ((name ++ (gap ++ sep :: (gap' ++ x))).length - (gap ++ sep :: (gap' ++ x)).length) = name := by
    rw [List.length_append, Nat.add_sub_cancel, List.take_left]
  have hstop : ¬ (sep :: (gap' ++ x)).head?.any isSpace := h.not_isSpace_sep
  have hstop' : ¬ x.head?.any isSpace := by
    cases x with
    | nil => simp at hx
    | cons c x => exact not_isSpace_of_isValueChar hx
  unfold namedSecret
  simp only [if_pos hopens, hafter, hname, takeWhile_run h.gap hstop, List.drop_left, takeWhile_run h.gap' hstop']
  rw [if_pos ⟨h.endsWord _, h.sep, takeWhile_ne_nil hx⟩]

theorem namedSecret_of_value (hopens : opensWord before) (h : SecretFront name gap sep gap') (hne : value ≠ [])
    (hvalue : ∀ c ∈ value, isValueChar c) (hrest : ¬ rest.head?.any isValueChar) :
    namedSecret before (name ++ (gap ++ sep :: (gap' ++ (value ++ rest)))) =
      some ⟨(name ++ (gap ++ sep :: (gap' ++ value))).length, name ++ '=' :: redacted⟩ := by
  have hhead : (value ++ rest).head?.any isValueChar := by
    obtain ⟨c, cs, rfl⟩ := List.exists_cons_of_ne_nil hne
    exact hvalue c List.mem_cons_self
  rw [namedSecret_eq hopens h hhead, takeWhile_run hvalue hrest]
  simp only [List.length_append, List.length_cons, Nat.add_assoc, Nat.add_comm 1]

theorem namedSecret_eq_some (h : namedSecret before text = some f) :
    opensWord before ∧ ∃ name gap sep gap' x, text = name ++ (gap ++ sep :: (gap' ++ x)) ∧
      SecretFront name gap sep gap' ∧ x.head?.any isValueChar ∧
      f = ⟨name.length + gap.length + 1 + gap'.length + (x.takeWhile isValueChar).length,
        name ++ '=' :: redacted⟩ := by
  have hfound := h
  unfold namedSecret at h
  split at h
  · rename_i hopens
    split at h
    · cases h
    · rename_i rest hafter
      obtain ⟨name, rfl, hname⟩ := afterName?_eq_some_iff.mp hafter
      simp only [drop_length_takeWhile] at h
      split at h
      · cases h
      · rename_i sep behind hsep
        split at h
        · rename_i hcond
          have hfront : SecretFront name (rest.takeWhile isSpace) sep (behind.takeWhile isSpace) :=
            ⟨hname, fun c hc => List.mem_takeWhile_imp hc, hcond.2.1, fun c hc => List.mem_takeWhile_imp hc⟩
          have hvalue : (behind.dropWhile isSpace).head?.any isValueChar := by
            by_contra hhead
            exact hcond.2.2 (takeWhile_of_head _ hhead)
          have hsplit : name ++ rest = name ++ (rest.takeWhile isSpace ++
              sep :: (behind.takeWhile isSpace ++ behind.dropWhile isSpace)) := by
            rw [List.takeWhile_append_dropWhile, ← hsep, List.takeWhile_append_dropWhile]
          rw [hsplit, namedSecret_eq hopens hfront hvalue] at hfound
          exact ⟨hopens, name, _, sep, _, _, hsplit, hfront, hvalue, (Option.some.inj hfound).symm⟩
        · cases h
  · cases h

theorem IsName.exists_cons (h : IsName name) :
    ∃ d ds, name = d :: ds ∧ startsSecret d ∧ fold d ≠ 'b' ∧ inert startsRewritten (some d) ds := by
  have hall : ∀ n ∈ names, n.head?.any (fun d => startsSecret d && d != 'b') ∧
      inert startsRewritten n.head? n.tail := by decide
  obtain ⟨hhead, htail⟩ := hall _ h
  cases name with
  | nil => cases hhead
  | cons d ds =>
    simp only [List.map_cons, List.head?_cons, Option.any_some, Bool.and_eq_true, startsSecret_fold,
      bne_iff_ne] at hhead
    exact ⟨d, ds, rfl, hhead.1, hhead.2, (inert_map_fold startsRewritten_fold (some d) ds).symm.trans htail⟩

theorem SecretFront.exists_cons (h : SecretFront name gap sep gap') :
    ∃ d ds, name ++ (gap ++ sep :: gap') = d :: ds ∧ inert startsRewritten (some d) ds := by
  obtain ⟨d, ds, rfl, -, -, hname⟩ := h.name.exists_cons
  have hblank {b : List Char} (hb : ∀ c ∈ b, isSpace c) (before : Option Char) :
      inert startsRewritten before b :=
    inert_of_forall (fun c hc hstart => not_isSpace_of_startsRewritten hstart (hb c hc)) before
  have hsep : ¬ startsRewritten sep := by rcases h.sep with rfl | rfl <;> decide
  refine ⟨d, ds ++ (gap ++ sep :: gap'), rfl, ?_⟩
  rw [inert_append, inert_append, Bool.and_eq_true, Bool.and_eq_true, inert_cons]
  exact ⟨hname, hblank h.gap _, fun hstart => hsep hstart.2, hblank h.gap' _⟩

theorem local_namedSecret : Local namedSecret := by
  intro before a c t c' t' f' hne hopens hc hc' hf'
  obtain ⟨hbefore, name, gap, sep, gap', x, heq, hfront, hx, rfl⟩ := namedSecret_eq_some hf'
  obtain ⟨d, ds, hds, hinert⟩ := hfront.exists_cons
  have hwhole (y : List Char) : name ++ (gap ++ sep :: (gap' ++ y)) = d :: ds ++ y := by
    rw [← hds]
    simp only [List.append_assoc, List.cons_append]
  rw [hwhole] at heq
  obtain ⟨b, rfl, rfl⟩ := append_of_inert hinert hne hopens hc' heq.symm
  have hhead : (b ++ c :: t).head?.any isValueChar := by
    cases b with
    | nil => exact isValueChar_of_startsSecret hc
    | cons _ _ => exact hx
  rw [List.append_assoc, ← hwhole, List.length_append, ← hds]
  simp only [List.length_append, List.length_cons]
  refine ⟨_, namedSecret_eq hbefore hfront hhead, rfl, fun hstart hle => ?_⟩
  have hshort : ((b ++ c' :: t').takeWhile isValueChar).length ≤ b.length := by omega
  rw [takeWhile_of_length_le (isValueChar_of_startsSecret hstart) hshort]

theorem reaches_namedSecret : Reaches namedSecret fun t => (t.takeWhile isValueChar).length := by
  intro before a c t f hne hopens hc hf hlt
  obtain ⟨-, name, gap, sep, gap', x, heq, hfront, -, rfl⟩ := namedSecret_eq_some hf
  obtain ⟨d, ds, hds, hinert⟩ := hfront.exists_cons
  have hwhole : name ++ (gap ++ sep :: (gap' ++ x)) = d :: ds ++ x := by
    rw [← hds]
    simp only [List.append_assoc, List.cons_append]
  rw [hwhole] at heq
  obtain ⟨b, rfl, rfl⟩ := append_of_inert hinert hne hopens (startsRewritten_of_startsSecret hc) heq.symm
  rw [← hds] at hlt ⊢
  simp only [List.length_append, List.length_cons] at hlt ⊢
  rw [takeWhile_of_lt_length (by omega), List.length_append]
  omega

theorem anchored_namedSecret : Anchored namedSecret where
  congr before before' text h := by unfold namedSecret; rw [h]
  opens before text h := by
    obtain ⟨f, hf⟩ := Option.ne_none_iff_exists'.mp h
    obtain ⟨hopens, name, gap, sep, gap', x, rfl, hfront, -, -⟩ := namedSecret_eq_some hf
    obtain ⟨d, ds, rfl, hd, -, -⟩ := hfront.name.exists_cons
    exact ⟨hopens, hd⟩

theorem inert_of_startsRewritten (h : inert startsRewritten before text) : inert startsSecret before text := by
  induction text generalizing before with
  | nil => rfl
  | cons c cs ih =>
    obtain ⟨hc, hcs⟩ := inert_cons.mp h
    exact inert_cons.mpr ⟨fun hstart => hc ⟨hstart.1, startsRewritten_of_startsSecret hstart.2⟩, ih hcs⟩

/-- What is written for a named secret: nothing begins in it behind the name's first letter. -/
theorem IsName.exists_written (h : IsName name) :
    ∃ d ds, name ++ '=' :: redacted = d :: ds ∧ startsSecret d ∧ fold d ≠ 'b' ∧
    inert startsSecret (some d) ds ∧ ds.getLast? = some '>' := by
  obtain ⟨d, ds, rfl, hd, hb, hname⟩ := h.exists_cons
  refine ⟨d, ds ++ '=' :: redacted, rfl, hd, hb, ?_, ?_⟩
  · rw [inert_append, Bool.and_eq_true, inert_cons]
    exact ⟨inert_of_startsRewritten hname, fun hstart => absurd hstart.2 (by decide), by decide⟩
  · rw [List.getLast?_append_of_ne_nil _ (List.cons_ne_nil _ _)]
    decide

theorem namedSecret_hit (h : namedSecret before (taken ++ rest) = some ⟨taken.length, instead⟩) :
    opensWord before ∧ ∃ name gap sep gap' value, taken = name ++ (gap ++ sep :: (gap' ++ value)) ∧
      SecretFront name gap sep gap' ∧ (∀ c ∈ value, isValueChar c) ∧ value ≠ [] ∧ ¬ rest.head?.any isValueChar ∧
      instead = name ++ '=' :: redacted := by
  obtain ⟨hopens, name, gap, sep, gap', x, heq, hfront, hx, hf⟩ := namedSecret_eq_some h
  obtain ⟨hlength, rfl⟩ := Match.mk.inj hf
  have hsplit : taken ++ rest =
      (name ++ (gap ++ sep :: (gap' ++ x.takeWhile isValueChar))) ++ x.dropWhile isValueChar := by
    rw [heq]
    simp only [List.append_assoc, List.cons_append, List.takeWhile_append_dropWhile]
  obtain ⟨rfl, rfl⟩ := List.append_inj hsplit (by
    simp only [List.length_append, List.length_cons]
    omega)
  exact ⟨hopens, name, gap, sep, gap', _, rfl, hfront, fun c hc => List.mem_takeWhile_imp hc, takeWhile_ne_nil hx,
    head_dropWhile isValueChar x, rfl⟩

theorem rule_namedSecret : Rule namedSecret where
  toAnchored := anchored_namedSecret
  bounded before text f h := by
    obtain ⟨-, name, gap, sep, gap', x, rfl, -, -, rfl⟩ := namedSecret_eq_some h
    have hle := (List.takeWhile_prefix isValueChar (l := x)).length_le
    simp only [List.length_append, List.length_cons]
    omega
  hit before taken rest instead hne h := by
    obtain ⟨-, name, gap, sep, gap', value, -, hfront, -, -, hstop, rfl⟩ := namedSecret_hit h
    obtain ⟨d, ds, hds, hd, -, hinert, hlast⟩ := hfront.name.exists_written
    exact ⟨⟨d, ds, hds, startsRewritten_of_startsSecret hd, hinert, hlast⟩,
      .inr (not_startsSecret_of_not_isValueChar hstop)⟩

-- ---------------------------------------------------------------------------
-- Secrets that have been replaced
-- ---------------------------------------------------------------------------

/-- The text begins with what is written for a named secret, and no value goes on behind that. -/
def Replaced (text : List Char) : Prop :=
  ∃ name rest, IsName name ∧ text = name ++ '=' :: (redacted ++ rest) ∧ ¬ rest.head?.any isValueChar

theorem namedSecret_replaced (hopens : opensWord before) (hname : IsName name)
    (hrest : ¬ rest.head?.any isValueChar) :
    namedSecret before (name ++ '=' :: (redacted ++ rest)) =
      some ⟨(name ++ '=' :: redacted).length, name ++ '=' :: redacted⟩ := by
  have hfront : SecretFront name [] '=' [] := ⟨hname, by simp, .inr rfl, by simp⟩
  have hvalue : ∀ c ∈ redacted, isValueChar c := List.all_eq_true.mp (by decide)
  exact namedSecret_of_value hopens hfront (by decide) hvalue hrest

/-- A named secret that replacing does not change is its own replacement. -/
theorem replaced_of_changing (h : changing namedSecret before text = none) (hf : namedSecret before text = some f) :
    Replaced text := by
  have hsame := changing_eq_none_iff.mp h f hf
  obtain ⟨-, name, gap, sep, gap', x, rfl, hfront, hx, rfl⟩ := namedSecret_eq_some hf
  have hsplit : name ++ (gap ++ sep :: (gap' ++ x)) =
      (name ++ (gap ++ sep :: (gap' ++ x.takeWhile isValueChar))) ++ x.dropWhile isValueChar := by
    simp only [List.append_assoc, List.cons_append, List.takeWhile_append_dropWhile]
  have hlength : name.length + gap.length + 1 + gap'.length + (x.takeWhile isValueChar).length =
      (name ++ (gap ++ sep :: (gap' ++ x.takeWhile isValueChar))).length := by
    simp only [List.length_append, List.length_cons]
    omega
  simp only [hlength] at hsame
  rw [hsplit, List.take_left] at hsame
  have htail : '=' :: redacted = gap ++ sep :: (gap' ++ x.takeWhile isValueChar) := List.append_cancel_left hsame
  -- neither the equals sign nor the mark behind it is a blank
  obtain rfl : gap = [] := by
    cases gap with
    | nil => rfl
    | cons c gap =>
      have hc := hfront.gap c List.mem_cons_self
      rw [← (List.cons.inj htail).1] at hc
      exact absurd hc (by decide)
  obtain ⟨rfl, hvalue⟩ := List.cons.inj htail
  obtain rfl : gap' = [] := by
    cases gap' with
    | nil => rfl
    | cons c gap' =>
      have hc := hfront.gap' c List.mem_cons_self
      rw [← (List.cons.inj hvalue).1] at hc
      exact absurd hc (by decide)
  refine ⟨name, x.dropWhile isValueChar, hfront.name, ?_, head_dropWhile isValueChar x⟩
  rw [hvalue, List.nil_append, List.nil_append, List.nil_append, List.takeWhile_append_dropWhile]

theorem steady_changing_namedSecret : Steady (changing namedSecret) := by
  intro before a c t c' t' hne hopens hc hc' hnone
  rw [changing_eq_none_iff]
  intro f' hf'
  obtain ⟨f, hf, -, -⟩ := local_namedSecret before a c t c' t' f' hne hopens hc hc' hf'
  have hbefore := (namedSecret_eq_some hf).1
  obtain ⟨name, rest, hname, heq, hrest⟩ := replaced_of_changing hnone hf
  obtain ⟨d, ds, hds, -, -, hinert, -⟩ := hname.exists_written
  have hwhole (y : List Char) : name ++ '=' :: (redacted ++ y) = d :: ds ++ y := by
    rw [← hds]
    simp only [List.append_assoc, List.cons_append]
  rw [hwhole] at heq
  obtain ⟨b, rfl, rfl⟩ := append_of_inert hinert hne hopens hc heq.symm
  have hstop : ¬ (b ++ c' :: t').head?.any isValueChar := by
    cases b with
    | nil => exact absurd (isValueChar_of_startsSecret hc) hrest
    | cons _ _ => exact hrest
  rw [List.append_assoc, ← hwhole] at hf' ⊢
  rw [namedSecret_replaced hbefore hname hstop] at hf'
  obtain rfl := Option.some.inj hf'
  rw [hwhole, hds, List.take_left]

end Vigil.Redaction
