import Vigil.Proofs.Output.Rules
import Vigil.Proofs.Text.Runs

/-!
# Secrets that are whole words

Access keys and long hexadecimal strings are words of their own. What is found at a place depends on nothing beyond
the word there: `WordRule.local`.
-/

namespace Vigil.Redaction

open CharClass Scan

variable {m : Matcher} {P : List Char → Prop} {mark : List Char} {before : Option Char} {f : Match} {c c' : Char}
  {a t t' text taken rest w : List Char}

-- ---------------------------------------------------------------------------
-- Words
-- ---------------------------------------------------------------------------

structure WordRule (m : Matcher) (P : List Char → Prop) (mark : List Char) : Prop where
  eq_some_iff : ∀ before text f, m before text = some f ↔
    opensWord before ∧ ∃ w rest, text = w ++ rest ∧ P w ∧ endsWord rest ∧ f = ⟨w.length, mark⟩
  starts : ∀ w, P w → w.head?.any startsSecret
  word : ∀ w, P w → ∀ c ∈ w, isWord c
  mark : ∃ cs, mark = '<' :: cs ∧ inert startsSecret (some '<') cs ∧ cs.getLast? = some '>'

theorem not_opensWord_of_word (hne : a ≠ []) (h : ∀ c ∈ a, isWord c) (before : Option Char) :
    ¬ opensWord (lastOr before a) := by
  rw [lastOr, List.getLast?_eq_some_getLast hne]
  simp [opensWord, h _ (List.getLast_mem hne)]

theorem WordRule.ne_nil (hm : WordRule m P mark) (h : P w) : w ≠ [] := by
  rintro rfl
  exact absurd (hm.starts [] h) Bool.false_ne_true

theorem WordRule.anchored (hm : WordRule m P mark) : Anchored m where
  congr before before' text h := by
    refine Option.ext fun f => ?_
    rw [hm.eq_some_iff, hm.eq_some_iff, h]
  opens before text h := by
    obtain ⟨f, hf⟩ := Option.ne_none_iff_exists'.mp h
    obtain ⟨hopens, w, rest, rfl, hw, -, -⟩ := (hm.eq_some_iff _ _ _).mp hf
    rw [List.head?_append_of_ne_nil _ (hm.ne_nil hw)]
    exact ⟨hopens, hm.starts w hw⟩

theorem WordRule.rule (hm : WordRule m P mark) : Rule m where
  toAnchored := hm.anchored
  bounded before text f h := by
    obtain ⟨-, w, rest, rfl, hw, -, rfl⟩ := (hm.eq_some_iff _ _ _).mp h
    exact ⟨List.length_pos_of_ne_nil (hm.ne_nil hw), by simp⟩
  hit before taken rest instead hne h := by
    obtain ⟨-, w, rest', heq, hw, hends, hf⟩ := (hm.eq_some_iff _ _ _).mp h
    obtain ⟨hlength, rfl⟩ := Match.mk.inj hf
    obtain ⟨rfl, rfl⟩ := List.append_inj heq hlength
    obtain ⟨cs, hcs, hinert, hlast⟩ := hm.mark
    refine ⟨⟨'<', cs, hcs, by decide, hinert, hlast⟩, .inr fun hstart => ?_⟩
    cases rest with
    | nil => cases hstart
    | cons c rest => simp [endsWord, isWord_of_startsSecret hstart] at hends

theorem WordRule.local (hm : WordRule m P mark) : Local m := by
  intro before a c t c' t' f' hne hopens hc hc' hf'
  obtain ⟨hbefore, w, rest, heq, hw, hends, rfl⟩ := (hm.eq_some_iff _ _ _).mp hf'
  rcases List.append_eq_append_iff.mp heq with ⟨b, hword, -⟩ | ⟨b, rfl, rfl⟩
  · refine absurd hopens (not_opensWord_of_word hne (fun d hd => hm.word w hw d ?_) before)
    rw [hword]
    exact List.mem_append_left _ hd
  · match b with
    | [] =>
      rw [List.append_nil] at hopens
      exact absurd hopens (not_opensWord_of_word (hm.ne_nil hw) (hm.word w hw) before)
    | e :: b =>
      exact ⟨_, (hm.eq_some_iff _ _ _).mpr ⟨hbefore, w, e :: b ++ c :: t, by simp, hw, hends, rfl⟩, rfl,
        fun _ _ => rfl⟩

/-- What follows the end of a word has no part in a match in front of that end. -/
theorem WordRule.closed (hm : WordRule m P mark) (t t' : List Char) : Closed m (opensWord ·) t t' := by
  intro before a hne hopens
  have hword : ¬ ∀ c ∈ a, isWord c := by
    intro hall
    refine not_opensWord_of_word hne hall none ?_
    rwa [lastOr_none]
  have hshort (t : List Char) {f : Match} (hf : m before (a ++ t) = some f) :
      f.taken ≤ a.length ∧ ∀ t', m before (a ++ t') = some f := by
    obtain ⟨hbefore, w, rest, heq, hw, hends, rfl⟩ := (hm.eq_some_iff _ _ _).mp hf
    rcases List.append_eq_append_iff.mp heq with ⟨b, rfl, -⟩ | ⟨b, rfl, rfl⟩
    · exact absurd (fun c hc => hm.word _ hw c (List.mem_append_left _ hc)) hword
    · match b with
      | [] =>
        rw [List.append_nil] at hword
        exact absurd (hm.word w hw) hword
      | e :: b =>
        refine ⟨by rw [List.length_append]; exact Nat.le_add_right _ _, fun t' => ?_⟩
        exact (hm.eq_some_iff _ _ _).mpr ⟨hbefore, w, e :: b ++ t', by simp, hw, hends, rfl⟩
  refine ⟨Option.ext fun f => ⟨fun hf => (hshort t hf).2 t', fun hf => (hshort t' hf).2 t⟩, fun f hf => (hshort t hf).1⟩

-- ---------------------------------------------------------------------------
-- The two kinds
-- ---------------------------------------------------------------------------

def IsAccessKey (w : List Char) : Prop :=
  ∃ code, w = "AKIA".toList ++ code ∧ code.length = 16 ∧ ∀ c ∈ code, isAsciiDigit c || isAsciiUpper c

def IsLongHex (w : List Char) : Prop := 32 ≤ w.length ∧ ∀ c ∈ w, isHexDigit c

theorem wordRule_accessKey : WordRule accessKey IsAccessKey "<REDACTED_AWS_KEY>".toList where
  eq_some_iff before text f := by
    constructor
    · intro h
      unfold accessKey at h
      split at h
      · rename_i rest
        split at h
        · rename_i hcond
          obtain ⟨hopens, hlength, hall, hends⟩ := hcond
          refine ⟨hopens, "AKIA".toList ++ rest.take 16, rest.drop 16, ?_, ⟨_, rfl, hlength, List.all_eq_true.mp hall⟩,
            hends, ?_⟩
          · rw [List.append_assoc, List.take_append_drop]
            rfl
          · rw [List.length_append, hlength]
            exact (Option.some.inj h).symm
        · cases h
      · cases h
    · rintro ⟨hopens, w, rest, rfl, ⟨code, rfl, hlength, hall⟩, hends, rfl⟩
      have htake : (code ++ rest).take 16 = code := hlength ▸ List.take_left
      have hdrop : (code ++ rest).drop 16 = rest := hlength ▸ List.drop_left
      have hwhole : accessKey before ('A' :: 'K' :: 'I' :: 'A' :: (code ++ rest)) =
          some ⟨20, "<REDACTED_AWS_KEY>".toList⟩ := by
        simp only [accessKey, htake, hdrop]
        exact if_pos ⟨hopens, hlength, List.all_eq_true.mpr hall, hends⟩
      rw [List.length_append, hlength]
      exact hwhole
  starts w := by
    rintro ⟨code, rfl, -, -⟩
    rfl
  word w := by
    rintro ⟨code, rfl, -, hall⟩ c hc
    refine isWord_of_isAsciiAlnum ?_
    rcases List.mem_append.mp hc with hc | hc
    · have hakia : ∀ c ∈ "AKIA".toList, isAsciiAlnum c := List.all_eq_true.mp (by decide)
      exact hakia c hc
    · have hcode := hall c hc
      simp only [Bool.or_eq_true] at hcode
      simp [isAsciiAlnum, hcode]
  mark := ⟨_, rfl, by decide, by decide⟩

theorem wordRule_longHex : WordRule longHex IsLongHex "<REDACTED_HEX>".toList where
  eq_some_iff before text f := by
    constructor
    · intro h
      unfold longHex at h
      simp only [drop_length_takeWhile] at h
      split at h
      · rename_i hcond
        obtain ⟨hopens, hlength, hends⟩ := hcond
        exact ⟨hopens, _, _, List.takeWhile_append_dropWhile.symm, ⟨hlength, fun c hc => List.mem_takeWhile_imp hc⟩,
          hends, (Option.some.inj h).symm⟩
      · cases h
    · rintro ⟨hopens, w, rest, rfl, ⟨hlength, hall⟩, hends, rfl⟩
      have hstop : ¬ rest.head?.any isHexDigit := by
        cases rest with
        | nil => exact Bool.false_ne_true
        | cons c rest =>
          intro hc
          simp [endsWord, isWord_of_isAsciiAlnum (isAsciiAlnum_of_isHexDigit hc)] at hends
      simp only [longHex, takeWhile_run hall hstop, List.drop_left]
      exact if_pos ⟨hopens, hlength, hends⟩
  starts w h := by
    obtain ⟨hlength, hall⟩ := h
    cases w with
    | nil => simp at hlength
    | cons c w => exact startsSecret_of_isHexDigit (hall c List.mem_cons_self)
  word w h c hc := isWord_of_isAsciiAlnum (isAsciiAlnum_of_isHexDigit (h.2 c hc))
  mark := ⟨_, rfl, by decide, by decide⟩

end Vigil.Redaction
