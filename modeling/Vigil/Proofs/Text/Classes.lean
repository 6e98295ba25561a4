import Vigil.Text.CharClass

/-!
# How the character classes stand to each other

A statement about a single character is checked on ASCII, on the two characters outside it that fold into it, and
proved of the rest, which folding leaves alone: `char_cases`. Folding leaves a character in its class of word
characters, and no blank is one.
-/

namespace Vigil.CharClass

variable {c : Char}

/-- ASCII, the long s and the kelvin sign, and all other characters. -/
theorem char_cases {P : Char → Prop} (ascii : ∀ n < 128, P (Char.ofNat n)) (longS : P '\u017f')
    (kelvin : P '\u212a') (wide : ∀ c : Char, 128 ≤ c.toNat → c ≠ '\u017f' → c ≠ '\u212a' → P c) (c : Char) :
    P c := by
  by_cases hc : c.toNat < 128
  · simpa using ascii c.toNat hc
  by_cases hs : c = '\u017f'
  · exact hs ▸ longS
  by_cases hk : c = '\u212a'
  · exact hk ▸ kelvin
  · exact wide c (Nat.not_lt.mp hc) hs hk

theorem toNat_le_of_le {d : Char} (h : c ≤ d) : c.toNat ≤ d.toNat := UInt32.le_iff_toNat_le.mp (Char.le_def.mp h)

theorem not_isAsciiAlnum_of_wide (hc : 128 ≤ c.toNat) : ¬ isAsciiAlnum c := by
  have hle {d : Char} (hd : d.toNat < 128) : ¬ c ≤ d := fun h => by
    have := toNat_le_of_le h
    omega
  have h9 : ¬ c ≤ '9' := hle (by decide)
  have hZ : ¬ c ≤ 'Z' := hle (by decide)
  have hz : ¬ c ≤ 'z' := hle (by decide)
  simp [isAsciiAlnum, isAsciiDigit, isAsciiUpper, isAsciiLower, h9, hZ, hz]

theorem fold_of_wide (hc : 128 ≤ c.toNat) (hs : c ≠ '\u017f') (hk : c ≠ '\u212a') : fold c = c := by
  have hupper : ¬ isAsciiUpper c := fun h => not_isAsciiAlnum_of_wide hc (by simp [isAsciiAlnum, h])
  simp [fold, hupper, hs, hk]

theorem isWord_fold (c : Char) : isWord (fold c) = isWord c := by
  induction c using char_cases with
  | ascii n hn => revert n; decide
  | longS => decide +kernel
  | kelvin => decide +kernel
  | wide c hc hs hk => rw [fold_of_wide hc hs hk]

theorem fold_fold (c : Char) : fold (fold c) = fold c := by
  induction c using char_cases with
  | ascii n hn => revert n; decide
  | longS => decide
  | kelvin => decide
  | wide c hc hs hk => rw [fold_of_wide hc hs hk, fold_of_wide hc hs hk]

theorem fold_eq_self (h : ¬ isAsciiLower (fold c)) : fold c = c := by
  induction c using char_cases with
  | ascii n hn => revert n; decide
  | longS => exact absurd rfl h
  | kelvin => exact absurd rfl h
  | wide c hc hs hk => exact fold_of_wide hc hs hk

theorem isWord_of_isAsciiAlnum (h : isAsciiAlnum c) : isWord c := by
  have hc : c.toNat < 128 := Nat.not_le.mp fun hc => not_isAsciiAlnum_of_wide hc h
  rw [isWord, if_pos (by simpa using hc), h, Bool.true_or]

theorem isAsciiAlnum_of_isHexDigit (h : isHexDigit c) : isAsciiAlnum c := by
  simp only [isHexDigit, Bool.or_eq_true, Bool.and_eq_true, decide_eq_true_eq] at h
  rcases h with (hdigit | ⟨ha, hf⟩) | ⟨hA, hF⟩
  · simp [isAsciiAlnum, hdigit]
  · simp [isAsciiAlnum, isAsciiLower, ha, Char.le_trans hf (by decide : 'f' ≤ 'z')]
  · simp [isAsciiAlnum, isAsciiUpper, hA, Char.le_trans hF (by decide : 'F' ≤ 'Z')]

theorem space_word_apart :
    (CharTable.space.all fun r => CharTable.word.all fun w => w.2 < r.1 || r.2 < w.1) = true := by
  decide +kernel

theorem not_isWord_of_isSpace (h : isSpace c) : ¬ isWord c := by
  by_cases hc : c.toNat < 128
  · have hall : ∀ n < 128, isSpace (Char.ofNat n) → ¬ isWord (Char.ofNat n) := by decide
    simpa using hall c.toNat hc (by simpa using h)
  · rw [isSpace, if_neg hc] at h
    rw [isWord, if_neg hc]
    intro hword
    obtain ⟨r, hr, hin⟩ := List.any_eq_true.mp h
    obtain ⟨w, hw, hin'⟩ := List.any_eq_true.mp hword
    have hapart := List.all_eq_true.mp (List.all_eq_true.mp space_word_apart r hr) w hw
    simp only [Bool.and_eq_true, decide_eq_true_eq, Bool.or_eq_true] at hin hin' hapart
    omega

end Vigil.CharClass
