import Vigil.Text.Scan

/-!
# Replacing what does not depend on its surroundings

A matcher is `Blind` if it does not look at the character in front of the text. What it replaces in a text can
then be told from the front: the first match, and what is replaced in the rest.
-/

namespace Vigil.Scan

variable {m : Matcher} {before : Option Char} {c : Char} {cs text : List Char}

def Blind (m : Matcher) : Prop := ∀ before before' text, m before text = m before' text

theorem replaceFrom_of_blind (hm : Blind m) (before : Option Char) (skip : Nat) (text : List Char) :
    replaceFrom m before skip text = replaceAll m (text.drop skip) := by
  induction text generalizing before skip with
  | nil => simp [replaceFrom, replaceAll]
  | cons c cs ih =>
    cases skip with
    | zero => rw [List.drop_zero, replaceAll, replaceFrom, replaceFrom, hm before none]
    | succ k => rw [replaceFrom, ih, List.drop_succ_cons]

theorem replaceAll_of_none (hm : Blind m) (h : m none (c :: cs) = none) :
    replaceAll m (c :: cs) = c :: replaceAll m cs := by
  simp only [replaceAll, replaceFrom, h]
  exact congrArg _ (replaceFrom_of_blind hm _ 0 cs)

theorem replaceAll_of_some (hm : Blind m) {found : Match} (h : m none (c :: cs) = some found) :
    replaceAll m (c :: cs) = found.instead ++ replaceAll m (cs.drop (found.taken - 1)) := by
  simp only [replaceAll, replaceFrom, h]
  exact congrArg _ (replaceFrom_of_blind hm _ _ cs)

end Vigil.Scan
