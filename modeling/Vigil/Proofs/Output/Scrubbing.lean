import Vigil.Proofs.Output.Bearer
import Vigil.Proofs.Output.NamedSecrets
import Vigil.Proofs.Output.WholeWords

/-!
# What redaction leaves

A redacted line holds no bearer token, no access key and no long hexadecimal string, and every named secret in it is
already replaced: `redact_scrubbed`. Each rule is run once, so what a later one writes or uncovers must be nothing
that an earlier one would have found.
-/

namespace Vigil.Redaction

open CharClass Scan

variable {m m' : Matcher} {P : List Char → Prop} {mark : List Char} {before : Option Char} {text rest : List Char}

-- ---------------------------------------------------------------------------
-- Secrets in a text
-- ---------------------------------------------------------------------------

def HasBearer (text : List Char) : Prop :=
  ∃ front word blanks token rest, text = front ++ (word ++ (blanks ++ (token ++ rest))) ∧
    opensWord front.getLast? ∧ BearerFront word blanks ∧ token ≠ [] ∧ ∀ c ∈ token, isTokenChar c

def HasWord (P : List Char → Prop) (text : List Char) : Prop :=
  ∃ front w rest, text = front ++ (w ++ rest) ∧ opensWord front.getLast? ∧ P w ∧ endsWord rest

/-- Nothing in the text is a secret, and of a named one only the name is left. -/
structure Scrubbed (text : List Char) : Prop where
  noBearer : ¬ HasBearer text
  noAccessKey : ¬ HasWord IsAccessKey text
  noLongHex : ¬ HasWord IsLongHex text
  named : ∀ front name gap sep gap' value rest,
    text = front ++ (name ++ (gap ++ sep :: (gap' ++ (value ++ rest)))) → opensWord front.getLast? →
    SecretFront name gap sep gap' → value ≠ [] → (∀ c ∈ value, isValueChar c) → ¬ rest.head?.any isValueChar →
    name ++ (gap ++ sep :: (gap' ++ value)) = name ++ '=' :: redacted

theorem noBearer_of_clean (h : Clean bearer none text) : ¬ HasBearer text := by
  rintro ⟨front, word, blanks, token, rest, rfl, hopens, hfront, hne, htoken⟩
  obtain ⟨c, cs, rfl⟩ := List.exists_cons_of_ne_nil hne
  have hnone := h.eq_none (by simp [hfront.ne_nil])
  have hhead : (c :: cs ++ rest).head?.any isTokenChar := htoken c List.mem_cons_self
  rw [lastOr_none, bearer_eq hopens hfront hhead] at hnone
  cases hnone

theorem WordRule.noWord_of_clean (hm : WordRule m P mark) (h : Clean m none text) : ¬ HasWord P text := by
  rintro ⟨front, w, rest, rfl, hopens, hw, hends⟩
  have hnone := h.eq_none (by simp [hm.ne_nil hw])
  rw [lastOr_none, (hm.eq_some_iff _ _ ⟨w.length, mark⟩).mpr ⟨hopens, w, rest, rfl, hw, hends, rfl⟩] at hnone
  cases hnone

-- ---------------------------------------------------------------------------
-- What a rule writes, and the other rules
-- ---------------------------------------------------------------------------

theorem WordRule.apart (hm : WordRule m P mark) (hm' : Anchored m') : Apart m m' := by
  intro before taken rest instead out hfound _
  obtain ⟨-, w, rest', -, -, -, hf⟩ := (hm.eq_some_iff _ _ _).mp hfound
  obtain ⟨cs, hcs, -⟩ := hm.mark
  rw [(Match.mk.inj hf).2, hcs]
  exact hm'.eq_none_of_mark _ _

theorem bearer_placeholder (before : Option Char) (text : List Char) :
    bearer before (bearerPlaceholder ++ text) = none := by
  unfold bearer
  cases opensWord before <;> rfl

theorem apart_bearer : Apart bearer bearer := by
  intro before taken rest instead out hfound _
  obtain ⟨-, _, _, _, -, -, -, hf⟩ := bearer_eq_some hfound
  rw [(Match.mk.inj hf).2]
  exact bearer_placeholder before out

theorem apart_namedSecret_bearer : Apart namedSecret bearer := by
  intro before taken rest instead out hfound _
  obtain ⟨-, name, _, _, _, _, -, hfront, -, -, -, rfl⟩ := namedSecret_hit hfound
  obtain ⟨d, ds, hds, -, hd, -⟩ := hfront.name.exists_written
  rw [hds]
  exact bearer_eq_none_of_head hd _ _

/-- Behind the value of a named secret none goes on, so none does behind the mark that replaces it. -/
theorem apart_changing_namedSecret : Apart namedSecret (changing namedSecret) := by
  intro before taken rest instead out hfound hout
  obtain ⟨hopens, name, _, _, _, _, -, hfront, -, -, hstop, rfl⟩ := namedSecret_hit hfound
  have hstop' : ¬ out.head?.any isValueChar := by rwa [hout (not_startsSecret_of_not_isValueChar hstop)]
  have hfound' := namedSecret_replaced hopens hfront.name hstop'
  rw [← List.cons_append, ← List.append_assoc] at hfound'
  rw [changing_eq_none_iff]
  intro f hf
  obtain rfl := Option.some.inj (hfound'.symm.trans hf)
  rw [List.take_left]

-- ---------------------------------------------------------------------------
-- The whole line
-- ---------------------------------------------------------------------------

/-- What the two rules with a value have done, and those for words leave so. -/
structure Settled (text : List Char) : Prop where
  bearer : Clean bearer none text
  named : Clean (changing namedSecret) none text

theorem settled_replaceAll (text : List Char) : Settled (replaceAll namedSecret (replaceAll bearer text)) where
  bearer := by
    refine rule_namedSecret.clean_replaceAll anchored_bearer local_bearer.steady apart_namedSecret_bearer ?_
    exact rule_bearer.clean_of_missed anchored_bearer local_bearer.steady apart_bearer (fun _ _ hnone => hnone) text
  named := rule_namedSecret.clean_of_missed anchored_namedSecret.changing steady_changing_namedSecret
    apart_changing_namedSecret (fun _ _ => changing_of_none) _

theorem Settled.replaceAll (h : Settled text) (hm : WordRule m P mark) : Settled (replaceAll m text) where
  bearer := hm.rule.clean_replaceAll anchored_bearer local_bearer.steady (hm.apart anchored_bearer) h.bearer
  named := hm.rule.clean_replaceAll anchored_namedSecret.changing steady_changing_namedSecret
    (hm.apart anchored_namedSecret.changing) h.named

theorem WordRule.clean (hm : WordRule m P mark) (text : List Char) : Clean m none (Scan.replaceAll m text) :=
  hm.rule.clean_of_missed hm.anchored hm.local.steady (hm.apart hm.anchored) (fun _ _ hnone => hnone) text

theorem clean_redactChars (line : List Char) :
    Settled (redactChars line) ∧ Clean accessKey none (redactChars line) ∧ Clean longHex none (redactChars line) := by
  have hsettled := (settled_replaceAll line).replaceAll wordRule_accessKey
  refine ⟨hsettled.replaceAll wordRule_longHex, ?_, wordRule_longHex.clean _⟩
  exact wordRule_longHex.rule.clean_replaceAll wordRule_accessKey.anchored wordRule_accessKey.local.steady
    (wordRule_longHex.apart wordRule_accessKey.anchored) (wordRule_accessKey.clean _)

theorem redactChars_redactChars (line : List Char) : redactChars (redactChars line) = redactChars line := by
  obtain ⟨⟨hbearer, hnamed⟩, hkey, hhex⟩ := clean_redactChars line
  generalize redactChars line = text at *
  have hself {m : Matcher} (hm : Rule m) (h : Clean (changing m) none text) : replaceAll m text = text :=
    replaceFrom_eq_self hm.bounded h
  calc redactChars text
      = replaceAll longHex (replaceAll accessKey (replaceAll namedSecret (replaceAll bearer text))) := rfl
    _ = replaceAll longHex (replaceAll accessKey (replaceAll namedSecret text)) := by
        rw [hself rule_bearer hbearer.changing]
    _ = replaceAll longHex (replaceAll accessKey text) := by rw [hself rule_namedSecret hnamed]
    _ = replaceAll longHex text := by rw [hself wordRule_accessKey.rule hkey.changing]
    _ = text := hself wordRule_longHex.rule hhex.changing

theorem named_of_clean (h : Clean (changing namedSecret) none text) {front name gap gap' value : List Char} {sep : Char}
    (htext : text = front ++ (name ++ (gap ++ sep :: (gap' ++ (value ++ rest))))) (hopens : opensWord front.getLast?)
    (hfront : SecretFront name gap sep gap') (hne : value ≠ []) (hvalue : ∀ c ∈ value, isValueChar c)
    (hrest : ¬ rest.head?.any isValueChar) : name ++ (gap ++ sep :: (gap' ++ value)) = name ++ '=' :: redacted := by
  subst htext
  have hnone := h.eq_none (by simp)
  rw [lastOr_none] at hnone
  have hsame : name ++ '=' :: redacted = (name ++ (gap ++ sep :: (gap' ++ (value ++ rest)))).take
      (name ++ (gap ++ sep :: (gap' ++ value))).length :=
    changing_eq_none_iff.mp hnone _ (namedSecret_of_value hopens hfront hne hvalue hrest)
  have hsplit : name ++ (gap ++ sep :: (gap' ++ (value ++ rest))) =
      (name ++ (gap ++ sep :: (gap' ++ value))) ++ rest := by
    simp only [List.append_assoc, List.cons_append]
  rw [hsame, hsplit, List.take_left]

/-- In a redacted line no secret is left, and redacting it again changes nothing. -/
theorem redact_scrubbed (line : String) : Scrubbed (redact line).toList ∧ redact (redact line) = redact line := by
  obtain ⟨hsettled, hkey, hhex⟩ := clean_redactChars line.toList
  rw [redact, redact, String.toList_ofList, redactChars_redactChars]
  refine ⟨⟨noBearer_of_clean hsettled.bearer, wordRule_accessKey.noWord_of_clean hkey,
    wordRule_longHex.noWord_of_clean hhex, fun _ _ _ _ _ _ _ => named_of_clean hsettled.named⟩, rfl⟩

end Vigil.Redaction
