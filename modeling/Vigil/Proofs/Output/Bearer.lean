import Vigil.Proofs.Output.Rules
import Vigil.Proofs.Text.Runs

/-!
# Bearer tokens

The word `bearer`, blanks, and a token with its padding: `bearer_eq` and `bearer_eq_some`. The rule for them lets
no secret that follows change what it finds in front of that one.
-/

namespace Vigil.Redaction

open CharClass Scan

variable {before : Option Char} {f : Match} {c c' d : Char}
  {a t t' text taken rest word blanks x : List Char}

structure BearerFront (word blanks : List Char) : Prop where
  word : word.map fold = "bearer".toList
  ne_nil : blanks ≠ []
  blanks : ∀ c ∈ blanks, isSpace c

def tokenLength (text : List Char) : Nat :=
  (text.takeWhile isTokenChar).length + ((text.dropWhile isTokenChar).takeWhile (· == '=')).length

def bearerPlaceholder : List Char := "Bearer ".toList ++ redacted

theorem not_isSpace_of_isTokenChar (h : isTokenChar c) : ¬ isSpace c := by
  induction c using char_cases with
  | ascii n hn => revert n; decide
  | longS => decide +kernel
  | kelvin => decide +kernel
  | wide c hc hs hk =>
    intro hspace
    have halnum : ¬ isAsciiAlnum (fold c) := by
      rw [fold_of_wide hc hs hk]
      exact not_isAsciiAlnum_of_wide hc
    have hmark {d : Char} (hd : d.toNat < 128) : c ≠ d := by
      rintro rfl
      omega
    simp [isTokenChar, halnum, hmark (d := '-') (by decide), hmark (d := '.') (by decide),
      hmark (d := '_') (by decide), hmark (d := '~') (by decide), hmark (d := '+') (by decide),
      hmark (d := '/') (by decide)] at h

theorem bearer_eq (hopens : opensWord before) (h : BearerFront word blanks) (hx : x.head?.any isTokenChar) :
    bearer before (word ++ (blanks ++ x)) = some ⟨6 + blanks.length + tokenLength x, bearerPlaceholder⟩ := by
  have hafter : afterFolded? "bearer".toList (word ++ (blanks ++ x)) = some (blanks ++ x) :=
    afterFolded?_eq_some_iff.mpr ⟨word, rfl, h.word⟩
  have hstop : ¬ x.head?.any isSpace := by
    cases x with
    | nil => simp at hx
    | cons c x => exact not_isSpace_of_isTokenChar hx
  unfold bearer
  simp only [if_pos hopens, hafter, takeWhile_run h.blanks hstop, List.drop_left, drop_length_takeWhile]
  rw [if_neg (by simp [h.ne_nil, takeWhile_ne_nil hx])]
  simp only [tokenLength, Nat.add_assoc]
  rfl

theorem bearer_eq_some (h : bearer before text = some f) :
    opensWord before ∧ ∃ word blanks x, text = word ++ (blanks ++ x) ∧ BearerFront word blanks ∧
      x.head?.any isTokenChar ∧ f = ⟨6 + blanks.length + tokenLength x, bearerPlaceholder⟩ := by
  have hfound := h
  unfold bearer at h
  split at h
  · rename_i hopens
    split at h
    · cases h
    · rename_i rest hafter
      obtain ⟨word, rfl, hword⟩ := afterFolded?_eq_some_iff.mp hafter
      simp only [drop_length_takeWhile] at h
      split at h
      · cases h
      · rename_i hne
        have hfront : BearerFront word (rest.takeWhile isSpace) :=
          ⟨hword, fun hnil => hne (.inl hnil), fun c hc => List.mem_takeWhile_imp hc⟩
        have htoken : (rest.dropWhile isSpace).head?.any isTokenChar := by
          by_contra hhead
          exact hne (.inr (takeWhile_of_head _ hhead))
        have hsplit : word ++ rest = word ++ (rest.takeWhile isSpace ++ rest.dropWhile isSpace) := by
          rw [List.takeWhile_append_dropWhile]
        rw [hsplit, bearer_eq hopens hfront htoken] at hfound
        exact ⟨hopens, word, _, _, hsplit, hfront, htoken, (Option.some.inj hfound).symm⟩
  · cases h

theorem BearerFront.length_word (h : BearerFront word blanks) : word.length = 6 := by
  rw [← List.length_map fold, h.word]
  rfl

/-- The word and the blanks offer no place for anything else to begin. -/
theorem BearerFront.exists_cons (h : BearerFront word blanks) :
    ∃ d ds, word ++ blanks = d :: ds ∧ fold d = 'b' ∧ inert startsRewritten (some d) ds := by
  have hword := h.word
  match word, hword with
  | d :: ds, hword =>
    obtain ⟨hd, hds⟩ := List.cons.inj hword
    refine ⟨d, ds ++ blanks, rfl, hd, ?_⟩
    rw [inert_append, Bool.and_eq_true, ← inert_map_fold startsRewritten_fold]
    refine ⟨?_, inert_of_forall (fun c hc hstart => not_isSpace_of_startsRewritten hstart (h.blanks c hc)) _⟩
    rw [hds, Option.map_some, hd]
    decide

theorem tokenLength_cons (hd : isTokenChar d) (x : List Char) : tokenLength (d :: x) = tokenLength x + 1 := by
  rw [tokenLength, tokenLength, List.takeWhile_cons_of_pos hd, List.dropWhile_cons_of_pos hd, List.length_cons]
  omega

theorem tokenLength_of_stop (hd : ¬ isTokenChar d) (x : List Char) :
    tokenLength (d :: x) = ((d :: x).takeWhile (· == '=')).length := by
  rw [tokenLength, List.takeWhile_cons_of_neg hd, List.dropWhile_cons_of_neg hd]
  exact Nat.zero_add _

theorem not_pad_of_startsSecret (h : startsSecret c) : ¬ c == '=' := by
  intro heq
  rw [beq_iff_eq.mp heq] at h
  exact absurd h (by decide)

theorem tokenLength_congr (hc : startsSecret c) (hc' : startsSecret c')
    (h : tokenLength (a ++ c' :: t') ≤ a.length) : tokenLength (a ++ c :: t) = tokenLength (a ++ c' :: t') := by
  induction a with
  | nil =>
    rw [List.nil_append, tokenLength_cons (isTokenChar_of_startsSecret hc')] at h
    exact absurd h (Nat.not_succ_le_zero _)
  | cons d a ih =>
    by_cases hd : isTokenChar d
    · rw [List.cons_append, tokenLength_cons hd, List.length_cons] at h
      rw [List.cons_append, List.cons_append, tokenLength_cons hd, tokenLength_cons hd, ih (by omega)]
    · rw [List.cons_append, List.cons_append, tokenLength_of_stop hd, tokenLength_of_stop hd]
      exact congrArg List.length (takeWhile_of_stop (f := (· == '=')) (not_pad_of_startsSecret hc)
        (not_pad_of_startsSecret hc') (d :: a) t t')

theorem tokenLength_append (h : ∀ c ∈ a, isTokenChar c) (x : List Char) :
    tokenLength (a ++ x) = a.length + tokenLength x := by
  induction a with
  | nil => exact (Nat.zero_add _).symm
  | cons d a ih =>
    obtain ⟨hd, ha⟩ := List.forall_mem_cons.mp h
    rw [List.cons_append, tokenLength_cons hd, ih ha, List.length_cons]
    omega

/-- A token goes on into a secret that it reaches. -/
theorem tokenLength_of_lt (hc : startsSecret c) (h : a.length < tokenLength (a ++ c :: t)) :
    tokenLength (a ++ c :: t) = a.length + tokenLength (c :: t) := by
  induction a with
  | nil => exact (Nat.zero_add _).symm
  | cons d a ih =>
    by_cases hd : isTokenChar d
    · rw [List.cons_append, tokenLength_cons hd, List.length_cons] at h ⊢
      rw [ih (by omega)]
      omega
    · rw [List.cons_append, tokenLength_of_stop hd] at h
      exact absurd h (Nat.not_lt.mpr (length_takeWhile_le (f := (· == '=')) (not_pad_of_startsSecret hc) (d :: a) t))

theorem reaches_bearer : Reaches bearer tokenLength := by
  intro before a c t f hne hopens hc hf hlt
  obtain ⟨-, word, blanks, x, heq, hfront, -, rfl⟩ := bearer_eq_some hf
  obtain ⟨d, ds, hds, -, hinert⟩ := hfront.exists_cons
  rw [← List.append_assoc, hds] at heq
  obtain ⟨b, rfl, rfl⟩ := append_of_inert hinert hne hopens (startsRewritten_of_startsSecret hc) heq.symm
  rw [← hds] at hlt ⊢
  simp only [List.length_append, hfront.length_word] at hlt ⊢
  rw [tokenLength_of_lt hc (by omega), ← Nat.add_assoc]

theorem local_bearer : Local bearer := by
  intro before a c t c' t' f' hne hopens hc hc' hf'
  obtain ⟨hbefore, word, blanks, x, heq, hfront, hx, rfl⟩ := bearer_eq_some hf'
  obtain ⟨d, ds, hds, -, hinert⟩ := hfront.exists_cons
  rw [← List.append_assoc, hds] at heq
  obtain ⟨b, rfl, rfl⟩ := append_of_inert hinert hne hopens hc' heq.symm
  have hhead : (b ++ c :: t).head?.any isTokenChar := by
    cases b with
    | nil => exact isTokenChar_of_startsSecret hc
    | cons _ _ => exact hx
  rw [← hds]
  simp only [List.append_assoc, List.length_append, hfront.length_word]
  refine ⟨_, bearer_eq hbefore hfront hhead, rfl, fun hstart hle => ?_⟩
  exact congrArg _ (tokenLength_congr hc hstart (by omega))

theorem bearer_eq_none_of_head (hd : fold d ≠ 'b') (before : Option Char) (cs : List Char) :
    bearer before (d :: cs) = none := by
  rw [Option.eq_none_iff_forall_not_mem]
  intro f hf
  obtain ⟨-, word, blanks, x, heq, hfront, -⟩ := bearer_eq_some hf
  obtain ⟨e, es, hes, he, -⟩ := hfront.exists_cons
  rw [← List.append_assoc, hes] at heq
  obtain ⟨rfl, -⟩ := List.cons.inj heq
  exact hd he

theorem anchored_bearer : Anchored bearer where
  congr before before' text h := by unfold bearer; rw [h]
  opens before text h := by
    obtain ⟨f, hf⟩ := Option.ne_none_iff_exists'.mp h
    obtain ⟨hopens, word, blanks, x, rfl, hfront, -, -⟩ := bearer_eq_some hf
    obtain ⟨d, ds, hds, hd, -⟩ := hfront.exists_cons
    refine ⟨hopens, ?_⟩
    rw [← List.append_assoc, hds, List.cons_append, List.head?_cons, Option.any_some, ← startsSecret_fold, hd]
    decide

/-- A text is a token, its padding, and what follows: no padding, unless the token ended in front of that. -/
theorem exists_token (x : List Char) :
    ∃ token pad rest, x = token ++ (pad ++ rest) ∧ tokenLength x = token.length + pad.length ∧
      (∀ c ∈ pad, c = '=') ∧ (pad = [] → ¬ rest.head?.any isTokenChar) := by
  obtain ⟨behind, hbehind⟩ : ∃ behind, behind = x.dropWhile isTokenChar := ⟨_, rfl⟩
  refine ⟨x.takeWhile isTokenChar, behind.takeWhile (· == '='), behind.dropWhile (· == '='), ?_, ?_, ?_, ?_⟩
  · rw [List.takeWhile_append_dropWhile, hbehind, List.takeWhile_append_dropWhile]
  · rw [tokenLength, hbehind]
  · exact fun c hc => beq_iff_eq.mp (List.mem_takeWhile_imp (p := (· == '=')) hc)
  · intro hnil
    have hrest : behind.dropWhile (· == '=') = behind := by
      have hsplit := List.takeWhile_append_dropWhile (p := (· == '=')) (l := behind)
      rwa [hnil, List.nil_append] at hsplit
    rw [hrest, hbehind]
    exact head_dropWhile isTokenChar x

theorem tokenLength_le (x : List Char) : tokenLength x ≤ x.length := by
  obtain ⟨token, pad, rest, hx, hlength, -, -⟩ := exists_token x
  have := congrArg List.length hx
  simp only [List.length_append] at this
  omega

theorem lastOr_of_forall {d : Char} (hne : a ≠ []) (h : ∀ c ∈ a, c = d) (before : Option Char) :
    lastOr before a = some d := by
  rw [lastOr, List.getLast?_eq_some_getLast hne, h _ (List.getLast_mem hne)]
  rfl

theorem rule_bearer : Rule bearer where
  toAnchored := anchored_bearer
  bounded before text f h := by
    obtain ⟨-, word, blanks, x, rfl, hfront, -, rfl⟩ := bearer_eq_some h
    have hle := tokenLength_le x
    simp only [List.length_append, hfront.length_word]
    omega
  hit before taken rest instead hne h := by
    obtain ⟨-, word, blanks, x, heq, hfront, -, hf⟩ := bearer_eq_some h
    obtain ⟨hlength, rfl⟩ := Match.mk.inj hf
    obtain ⟨token, pad, after, rfl, htoken, hpad, hstop⟩ := exists_token x
    have hsplit : taken ++ rest = (word ++ (blanks ++ (token ++ pad))) ++ after := by
      rw [heq]
      simp only [List.append_assoc]
    obtain ⟨rfl, rfl⟩ := List.append_inj hsplit (by
      simp only [List.length_append, hfront.length_word]
      omega)
    refine ⟨⟨'B', _, rfl, by decide, by decide, by decide⟩, ?_⟩
    by_cases hnil : pad = []
    · refine .inr fun hstart => hstop hnil ?_
      cases rest with
      | nil => exact hstart
      | cons c rest => exact isTokenChar_of_startsSecret hstart
    · refine .inl ?_
      rw [lastOr_append, lastOr_append, lastOr_append, lastOr_of_forall hnil hpad]
      decide

end Vigil.Redaction
