import Vigil.Proofs.Text.Runs
import Vigil.Text.Quoted

/-!
# Reading quoted text back

Quoting loses nothing: the forms of the characters are a prefix code. Nor can quoted text be mistaken for
what stands in front of it, since behind its first quote every other one stands after a backslash. So of
a text that ends in a quotation after a blank only one reading is possible, `Quoted.eq_of_trailing`.
-/

namespace Vigil

variable {c d stop : Char} {cs ds front rest x y : List Char}

-- ---------------------------------------------------------------------------
-- Prefix codes
-- ---------------------------------------------------------------------------

/-- No form of a character begins another's, nor begins with the character that a text ends at. -/
structure PrefixCode (form : Char → List Char) (stop : Char) : Prop where
  unique {c d : Char} {x y : List Char} : form c ++ x = form d ++ y → c = d
  unstopped {c : Char} {x y : List Char} : form c ++ x ≠ stop :: y

/-- A text in such forms is told apart from what follows it. -/
theorem PrefixCode.flatMap_inj {form : Char → List Char} (code : PrefixCode form stop)
    (h : cs.flatMap form ++ stop :: x = ds.flatMap form ++ stop :: y) : cs = ds ∧ x = y := by
  induction cs generalizing ds with
  | nil =>
    cases ds with
    | nil => exact ⟨rfl, List.tail_eq_of_cons_eq h⟩
    | cons d ds =>
      rw [List.flatMap_cons, List.append_assoc] at h
      exact absurd h.symm code.unstopped
  | cons c cs ih =>
    rw [List.flatMap_cons, List.append_assoc] at h
    cases ds with
    | nil => exact absurd h code.unstopped
    | cons d ds =>
      rw [List.flatMap_cons, List.append_assoc] at h
      obtain rfl := code.unique h
      obtain ⟨rfl, rfl⟩ := ih (List.append_cancel_left h)
      exact ⟨rfl, rfl⟩

namespace Quoted

-- ---------------------------------------------------------------------------
-- Hexadecimal digits
-- ---------------------------------------------------------------------------

theorem forall_mem_toDigits {P : Char → Prop} (hP : ∀ k < 16, P (Nat.digitChar k)) (n : Nat) :
    ∀ k ∈ Nat.toDigits 16 n, P k := by
  induction n using Nat.strongRecOn with
  | ind n ih =>
    intro k hk
    rw [Nat.toDigits_eq_if (by decide)] at hk
    split at hk
    · rename_i hlt
      rw [List.mem_singleton.mp hk]
      exact hP n hlt
    · rcases List.mem_append.mp hk with hk | hk
      · exact ih (n / 16) (by omega) k hk
      · rw [List.mem_singleton.mp hk]
        exact hP (n % 16) (Nat.mod_lt _ (by decide))

theorem digitChar_inj {i j : Nat} (hi : i < 16) (hj : j < 16) (h : Nat.digitChar i = Nat.digitChar j) :
    i = j := by
  have hall : ∀ i < 16, ∀ j < 16, Nat.digitChar i = Nat.digitChar j → i = j := by decide
  exact hall i hi j hj h

theorem toDigits_inj {n k : Nat} (h : Nat.toDigits 16 n = Nat.toDigits 16 k) : n = k := by
  induction n using Nat.strongRecOn generalizing k with
  | ind n ih =>
    have hpos : ∀ m, 0 < (Nat.toDigits 16 m).length := fun m => Nat.length_toDigits_pos
    rw [Nat.toDigits_eq_if (by decide), Nat.toDigits_eq_if (n := k) (by decide)] at h
    split at h <;> split at h
    · rename_i hn hk
      exact digitChar_inj hn hk (List.head_eq_of_cons_eq h)
    · have hlen := congrArg List.length h
      have hk := hpos (k / 16)
      simp only [List.length_singleton, List.length_append] at hlen
      omega
    · have hlen := congrArg List.length h
      have hn := hpos (n / 16)
      simp only [List.length_singleton, List.length_append] at hlen
      omega
    · obtain ⟨hfront, hlast⟩ := List.append_inj' h rfl
      have hdiv := ih (n / 16) (by omega) hfront
      have hmod := digitChar_inj (Nat.mod_lt n (by decide)) (Nat.mod_lt k (by decide))
        (List.head_eq_of_cons_eq hlast)
      omega

-- ---------------------------------------------------------------------------
-- One character
-- ---------------------------------------------------------------------------

def shortForms : List (Char × Char) :=
  [('"', '"'), ('\\', '\\'), ('\t', 't'), ('\r', 'r'), ('\n', 'n'), ('\x00', '0')]

inductive Form (c : Char) : List Char → Prop
  | short {k} : (c, k) ∈ shortForms → Form c ['\\', k]
  | plain : c ≠ '"' → c ≠ '\\' → Form c [c]
  | coded : Form c ('\\' :: 'u' :: '\x7b' :: (Nat.toDigits 16 c.toNat ++ ['\x7d']))

theorem form_encodeChar (c : Char) : Form c (encodeChar c) := by
  unfold encodeChar
  split
  · subst c
    exact .short (by decide)
  · rename_i hquote
    split
    · subst c
      exact .short (by decide)
    · rename_i hslash
      split
      · subst c
        exact .short (by decide)
      · split
        · subst c
          exact .short (by decide)
        · split
          · subst c
            exact .short (by decide)
          · split
            · subst c
              exact .short (by decide)
            · split
              · exact .plain hquote hslash
              · exact .coded

theorem shortForms_inj {k : Char} (hc : (c, k) ∈ shortForms) (hd : (d, k) ∈ shortForms) : c = d := by
  have hall : ∀ p ∈ shortForms, ∀ q ∈ shortForms, p.2 = q.2 → p.1 = q.1 := by decide
  exact hall _ hc _ hd rfl

theorem ne_of_short {k : Char} (hc : (c, k) ∈ shortForms) : k ≠ 'u' := by
  have hall : ∀ p ∈ shortForms, p.2 ≠ 'u' := by decide
  exact hall _ hc

theorem not_mem_digits {n : Nat} : '\x7d' ∉ Nat.toDigits 16 n ∧ '"' ∉ Nat.toDigits 16 n := by
  have hall := forall_mem_toDigits (P := fun k => k ≠ '\x7d' ∧ k ≠ '"') (by decide) n
  exact ⟨fun h => (hall _ h).1 rfl, fun h => (hall _ h).2 rfl⟩

theorem digits_inj {n k : Nat} (h : Nat.toDigits 16 n ++ '\x7d' :: x = Nat.toDigits 16 k ++ '\x7d' :: y) :
    n = k :=
  toDigits_inj (Scan.append_stop_inj not_mem_digits.1 not_mem_digits.1 h).1

theorem Form.unique (hx : Form c x) (hy : Form d y) {xs ys : List Char} (h : x ++ xs = y ++ ys) : c = d := by
  cases hx with
  | @short k hc =>
    cases hy with
    | @short l hd =>
      obtain rfl : k = l := List.head_eq_of_cons_eq (List.tail_eq_of_cons_eq h)
      exact shortForms_inj hc hd
    | plain _ hslash => exact absurd (List.head_eq_of_cons_eq h).symm hslash
    | coded =>
      obtain rfl : k = 'u' := List.head_eq_of_cons_eq (List.tail_eq_of_cons_eq h)
      exact absurd rfl (ne_of_short hc)
  | plain _ hslash =>
    cases hy with
    | short => exact absurd (List.head_eq_of_cons_eq h) hslash
    | plain => exact List.head_eq_of_cons_eq h
    | coded => exact absurd (List.head_eq_of_cons_eq h) hslash
  | coded =>
    cases hy with
    | @short l hd =>
      obtain rfl : 'u' = l := List.head_eq_of_cons_eq (List.tail_eq_of_cons_eq h)
      exact absurd rfl (ne_of_short hd)
    | plain _ hslash => exact absurd (List.head_eq_of_cons_eq h).symm hslash
    | coded =>
      refine Char.toNat_inj.mp (digits_inj (x := xs) (y := ys) ?_)
      simpa using h

theorem Form.head?_ne (hx : Form c x) : x.head? ≠ some '"' := by
  cases hx with
  | short => simp
  | plain hquote => simpa using hquote
  | coded => simp

theorem Form.ne_nil (hx : Form c x) : x ≠ [] := by
  cases hx <;> simp

/-- Within a form no quote stands behind a blank. -/
theorem Form.no_opening (hx : Form c x) : x ≠ front ++ ' ' :: '"' :: rest := by
  rintro rfl
  generalize hy : front ++ ' ' :: '"' :: rest = y at hx
  cases hx with
  | short =>
    have hlen := congrArg List.length hy
    simp only [List.length_append, List.length_cons, List.length_nil] at hlen
    obtain rfl : front = [] := List.eq_nil_of_length_eq_zero (by omega)
    simp at hy
  | plain =>
    have hlen := congrArg List.length hy
    simp only [List.length_append, List.length_cons, List.length_nil] at hlen
    omega
  | coded =>
    have hquote : '"' ∈ front ++ ' ' :: '"' :: rest := by simp
    rw [hy] at hquote
    simp [not_mem_digits.2] at hquote

-- ---------------------------------------------------------------------------
-- Whole texts
-- ---------------------------------------------------------------------------

def body (cs : List Char) : List Char := cs.flatMap encodeChar

theorem body_cons (c : Char) (cs : List Char) : body (c :: cs) = encodeChar c ++ body cs := rfl

theorem toList_encode (s : String) : (encode s).toList = '"' :: (body s.toList ++ ['"']) := by
  rw [encode, String.toList_ofList]
  rfl

theorem encodeChar_prefixCode : PrefixCode encodeChar '"' where
  unique h := (form_encodeChar _).unique (form_encodeChar _) h
  unstopped {c x y} h := by
    have hhead := congrArg List.head? h
    rw [List.head?_append, Option.or_of_isSome (by simpa using (form_encodeChar c).ne_nil)] at hhead
    exact (form_encodeChar c).head?_ne hhead

theorem body_inj (h : body cs = body ds) : cs = ds := by
  have hstopped : body cs ++ ['"'] = body ds ++ ['"'] := by rw [h]
  exact (encodeChar_prefixCode.flatMap_inj hstopped).1

theorem body_head?_ne (cs : List Char) : (body cs).head? ≠ some '"' := by
  cases cs with
  | nil => simp [body]
  | cons c cs =>
    intro hhead
    obtain ⟨rest, hrest⟩ := List.head?_eq_some_iff.mp hhead
    exact encodeChar_prefixCode.unstopped hrest

theorem body_no_opening : body cs ≠ front ++ ' ' :: '"' :: rest := by
  induction cs generalizing front with
  | nil => simp [body]
  | cons c cs ih =>
    intro h
    rw [body_cons] at h
    rcases List.append_eq_append_iff.mp h with ⟨as, -, hcs⟩ | ⟨bs, hc, hrest⟩
    · exact ih hcs
    · -- the blank and the quote are in the form of the first character, astride, or behind it
      match bs with
      | [] =>
        have hnil : body cs = [] ++ ' ' :: '"' :: rest := hrest.symm
        exact ih hnil
      | [b] =>
        have hquote : '"' :: rest = body cs := List.tail_eq_of_cons_eq hrest
        exact body_head?_ne cs (by rw [← hquote]; rfl)
      | b :: b' :: bs =>
        obtain ⟨rfl, htail⟩ := List.cons_eq_cons.mp hrest
        obtain ⟨rfl, -⟩ := List.cons_eq_cons.mp htail
        exact (form_encodeChar c).no_opening hc

theorem body_of_opening (h : ' ' :: '"' :: body cs = front ++ ' ' :: '"' :: body ds) : cs = ds := by
  match front with
  | [] => exact body_inj (List.tail_eq_of_cons_eq (List.tail_eq_of_cons_eq h))
  | [_] =>
    have hquote : '"' = ' ' := List.head_eq_of_cons_eq (List.tail_eq_of_cons_eq h)
    exact absurd hquote (by decide)
  | _ :: _ :: front =>
    exact absurd (List.tail_eq_of_cons_eq (List.tail_eq_of_cons_eq h)) body_no_opening

/-- A text that ends in a quotation after a blank quotes one text only. -/
theorem eq_of_trailing {said said' s t : String}
    (h : said ++ " " ++ encode s = said' ++ " " ++ encode t) : s = t := by
  have hlists : (said.toList ++ ' ' :: '"' :: body s.toList) ++ ['"'] =
      (said'.toList ++ ' ' :: '"' :: body t.toList) ++ ['"'] := by
    simpa [toList_encode] using congrArg String.toList h
  have hopen := List.append_cancel_right hlists
  refine String.toList_inj.mp ?_
  rcases List.append_eq_append_iff.mp hopen with ⟨as, -, has⟩ | ⟨as, -, has⟩
  · exact body_of_opening has
  · exact (body_of_opening has).symm

end Quoted

end Vigil
