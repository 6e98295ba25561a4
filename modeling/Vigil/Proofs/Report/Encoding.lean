import Vigil.Proofs.Report.Calendar
import Vigil.Proofs.Text.Quoted
import Vigil.Report.Status

/-!
# Reading a snapshot back

No two snapshots have the same text. The characters of a string have a prefix code, and what follows a number does
not go on with it, so that a value is told apart from what stands behind it, `Json.pretty_append_inj`. So a
snapshot tells every workload with its state, its time and its evidence, `Snapshot.text_inj`.
-/

namespace Vigil.Report

namespace Json

variable {c d : Char} {x y : List Char}

-- ---------------------------------------------------------------------------
-- Strings
-- ---------------------------------------------------------------------------

def shortForms : List (Char × Char) :=
  [('"', '"'), ('\\', '\\'), ('\x08', 'b'), ('\t', 't'), ('\n', 'n'), ('\x0c', 'f'), ('\r', 'r')]

inductive Form (c : Char) : List Char → Prop
  | short {k} : (c, k) ∈ shortForms → Form c ['\\', k]
  | coded : c < ' ' → Form c ['\\', 'u', '0', '0', hexDigit (c.toNat / 16), hexDigit (c.toNat % 16)]
  | plain : c ≠ '"' → c ≠ '\\' → Form c [c]

theorem form_escapeChar (c : Char) : Form c (escapeChar c) := by
  unfold escapeChar
  split
  · subst c
    exact .short (by decide)
  rename_i hquote
  split
  · subst c
    exact .short (by decide)
  rename_i hslash
  split
  · subst c
    exact .short (by decide)
  split
  · subst c
    exact .short (by decide)
  split
  · subst c
    exact .short (by decide)
  split
  · subst c
    exact .short (by decide)
  split
  · subst c
    exact .short (by decide)
  split
  · rename_i hcontrol
    exact .coded hcontrol
  · exact .plain hquote hslash

theorem hexDigit_inj {i j : Nat} (hi : i < 16) (hj : j < 16) (h : hexDigit i = hexDigit j) : i = j := by
  have hall : ∀ i < 16, ∀ j < 16, hexDigit i = hexDigit j → i = j := by decide
  exact hall i hi j hj h

theorem shortForms_inj {k : Char} (hc : (c, k) ∈ shortForms) (hd : (d, k) ∈ shortForms) : c = d := by
  have hall : ∀ p ∈ shortForms, ∀ q ∈ shortForms, p.2 = q.2 → p.1 = q.1 := by decide
  exact hall _ hc _ hd rfl

theorem not_short_u : (c, 'u') ∉ shortForms := by
  intro hc
  have hall : ∀ p ∈ shortForms, p.2 ≠ 'u' := by decide
  exact hall _ hc rfl

theorem Form.unique {u v : List Char} (hc : Form c u) (hd : Form d v) (h : u ++ x = v ++ y) : c = d := by
  cases hc with
  | short hc =>
    cases hd with
    | short hd =>
      obtain rfl := List.head_eq_of_cons_eq (List.tail_eq_of_cons_eq h)
      exact shortForms_inj hc hd
    | coded =>
      obtain rfl := List.head_eq_of_cons_eq (List.tail_eq_of_cons_eq h)
      exact absurd hc not_short_u
    | plain _ hslash => exact absurd (List.head_eq_of_cons_eq h).symm hslash
  | coded hc =>
    cases hd with
    | short hd =>
      obtain rfl := List.head_eq_of_cons_eq (List.tail_eq_of_cons_eq h)
      exact absurd hd not_short_u
    | coded hd =>
      have hc : c.toNat < 32 := hc
      have hd : d.toNat < 32 := hd
      simp only [List.cons_append, List.nil_append, List.cons.injEq, true_and] at h
      have hhigh := hexDigit_inj (by omega) (by omega) h.1
      have hlow := hexDigit_inj (by omega) (by omega) h.2.1
      exact Char.toNat_inj.mp (by omega)
    | plain _ hslash => exact absurd (List.head_eq_of_cons_eq h).symm hslash
  | plain _ hslash =>
    cases hd with
    | short | coded => exact absurd (List.head_eq_of_cons_eq h) hslash
    | plain => exact List.head_eq_of_cons_eq h

theorem Form.unstopped {u : List Char} (hc : Form c u) : u ++ x ≠ '"' :: y := by
  intro h
  cases hc with
  | short | coded => simp at h
  | plain hquote => exact hquote (List.head_eq_of_cons_eq h)

theorem escapeChar_prefixCode : PrefixCode escapeChar '"' where
  unique h := (form_escapeChar _).unique (form_escapeChar _) h
  unstopped := (form_escapeChar _).unstopped

theorem toList_quote (s : String) : (quote s).toList = '"' :: (s.toList.flatMap escapeChar ++ ['"']) := by
  rw [quote, String.toList_ofList]
  rfl

theorem quote_append_inj {s t : String} (h : (quote s).toList ++ x = (quote t).toList ++ y) : s = t ∧ x = y := by
  rw [toList_quote, toList_quote] at h
  simp only [List.cons_append, List.append_assoc, List.nil_append, List.cons.injEq, true_and] at h
  obtain ⟨hs, hx⟩ := escapeChar_prefixCode.flatMap_inj h
  exact ⟨String.toList_inj.mp hs, hx⟩

-- ---------------------------------------------------------------------------
-- Numbers
-- ---------------------------------------------------------------------------

/-- What stands behind a value does not go on with a number. -/
def Ends (x : List Char) : Prop := ¬ x.head?.any Char.isDigit

theorem digits_append_inj {n k : Nat} (hx : Ends x) (hy : Ends y)
    (h : Nat.toDigits 10 n ++ x = Nat.toDigits 10 k ++ y) : n = k ∧ x = y := by
  have hdigits (n : Nat) : ∀ c ∈ Nat.toDigits 10 n, c.isDigit :=
    fun _ hc => Nat.isDigit_of_mem_toDigits (by decide) (by decide) hc
  have hrun := congrArg (List.takeWhile Char.isDigit) h
  rw [Scan.takeWhile_run (hdigits n) hx, Scan.takeWhile_run (hdigits k) hy] at hrun
  rw [hrun] at h
  have hvalue := congrArg (Nat.ofDigitChars 10 · 0) hrun
  simp only [Nat.ofDigitChars_ten_toDigits] at hvalue
  exact ⟨hvalue, List.append_cancel_left h⟩

theorem toList_number (n : Int) : (toString n).toList =
    if 0 ≤ n then Nat.toDigits 10 n.toNat else '-' :: Nat.toDigits 10 (-n).toNat := by
  show n.repr.toList = _
  rw [Int.repr_eq_if]
  split
  · rw [Nat.repr_eq_ofList_toDigits, String.toList_ofList]
  · rw [String.toList_append, Nat.repr_eq_ofList_toDigits, String.toList_ofList, String.toList_ofList]
    rfl

theorem digits_head (n : Nat) : ∃ c cs, Nat.toDigits 10 n = c :: cs ∧ c.isDigit := by
  simpa [Decimal.padded, Decimal.digits] using padded_head 0 n

theorem digits_ne_minus (n : Nat) : Nat.toDigits 10 n ++ x ≠ '-' :: y := by
  intro h
  obtain ⟨c, cs, hdigits, hc⟩ := digits_head n
  rw [hdigits] at h
  rw [List.head_eq_of_cons_eq h] at hc
  exact absurd hc (by decide)

theorem number_append_inj {n k : Int} (hx : Ends x) (hy : Ends y)
    (h : (toString n).toList ++ x = (toString k).toList ++ y) : n = k ∧ x = y := by
  rw [toList_number, toList_number] at h
  split at h <;> split at h
  · obtain ⟨hvalue, rfl⟩ := digits_append_inj hx hy h
    exact ⟨by omega, rfl⟩
  · exact absurd h (digits_ne_minus _)
  · exact absurd h.symm (digits_ne_minus _)
  · obtain ⟨hvalue, rfl⟩ := digits_append_inj hx hy (List.tail_eq_of_cons_eq h)
    exact ⟨by omega, rfl⟩

-- ---------------------------------------------------------------------------
-- Whole values
-- ---------------------------------------------------------------------------

def Begins : Json → Char → Prop
  | .null, c => c = 'n'
  | .number _, c => c = '-' ∨ c.isDigit
  | .string _, c => c = '"'
  | .object _, c => c = '\x7b'

/-- What stands behind a member of an object. -/
def behind (depth : Nat) (x : List Char) : List (String × Json) → List Char
  | [] => '\n' :: x
  | m :: ms => ',' :: '\n' :: ((memberText depth m).toList ++ behind depth x ms)

theorem ends_behind (depth : Nat) (x : List Char) (ms : List (String × Json)) : Ends (behind depth x ms) := by
  cases ms <;> simp [Ends, behind]

theorem toList_memberTexts (depth : Nat) (m : String × Json) (ms : List (String × Json)) (x : List Char) :
    (",\n".intercalate (memberTexts depth (m :: ms))).toList ++ '\n' :: x =
      (memberText depth m).toList ++ behind depth x ms := by
  induction ms generalizing m with
  | nil => simp [memberTexts, behind]
  | cons m' ms ih =>
    rw [behind, ← ih m']
    simp [memberTexts, String.intercalate_cons_cons]

theorem toList_object (depth : Nat) (m : String × Json) (ms : List (String × Json)) (x : List Char) :
    (pretty depth (.object (m :: ms))).toList ++ x = '\x7b' :: '\n' ::
      ((memberText (depth + 1) m).toList ++ behind (depth + 1) ((indent depth).toList ++ '\x7d' :: x) ms) := by
  rw [← toList_memberTexts]
  simp [pretty, memberTexts, braced]

theorem begins_pretty (depth : Nat) (v : Json) : ∃ c cs, (v.pretty depth).toList = c :: cs ∧ v.Begins c := by
  cases v with
  | null => exact ⟨'n', ['u', 'l', 'l'], by simp [pretty], rfl⟩
  | number n =>
    rw [pretty, toList_number]
    split
    · obtain ⟨c, cs, hdigits, hc⟩ := digits_head n.toNat
      exact ⟨c, cs, hdigits, .inr hc⟩
    · exact ⟨_, _, rfl, .inl rfl⟩
  | string s => exact ⟨_, _, by rw [pretty, toList_quote], rfl⟩
  | object members =>
    cases members with
    | nil => exact ⟨'\x7b', ['\x7d'], by simp [pretty, memberTexts, braced], rfl⟩
    | cons m ms => exact ⟨_, _, by rw [← List.append_nil (String.toList _), toList_object], rfl⟩

inductive SameKind : Json → Json → Prop
  | null : SameKind .null .null
  | number (n k : Int) : SameKind (.number n) (.number k)
  | string (s t : String) : SameKind (.string s) (.string t)
  | object (members others : List (String × Json)) : SameKind (.object members) (.object others)

theorem SameKind.of_begins {v w : Json} (hv : v.Begins c) (hw : w.Begins c) : SameKind v w := by
  cases v with
  | null =>
    obtain rfl := hv
    cases w with
    | null => exact .null
    | number | string | object => simp [Begins] at hw
  | number n =>
    cases w with
    | number k => exact .number n k
    | null | string | object =>
      obtain rfl := hw
      simp [Begins] at hv
  | string s =>
    obtain rfl := hv
    cases w with
    | string t => exact .string s t
    | null | number | object => simp [Begins] at hw
  | object members =>
    obtain rfl := hv
    cases w with
    | object others => exact .object members others
    | null | number | string => simp [Begins] at hw

theorem SameKind.of_pretty {depth : Nat} {v w : Json}
    (h : (v.pretty depth).toList ++ x = (w.pretty depth).toList ++ y) : SameKind v w := by
  obtain ⟨c, cs, hv, hc⟩ := begins_pretty depth v
  obtain ⟨d, ds, hw, hd⟩ := begins_pretty depth w
  rw [hv, hw] at h
  obtain rfl := List.head_eq_of_cons_eq h
  exact .of_begins hc hd

mutual

/-- A value is told apart from what stands behind it. -/
theorem pretty_append_inj (depth : Nat) (v w : Json) {x y : List Char} (hx : Ends x) (hy : Ends y)
    (h : (v.pretty depth).toList ++ x = (w.pretty depth).toList ++ y) : v = w ∧ x = y := by
  cases SameKind.of_pretty h with
  | null => exact ⟨rfl, List.append_cancel_left h⟩
  | number n k =>
    obtain ⟨rfl, rfl⟩ := number_append_inj hx hy h
    exact ⟨rfl, rfl⟩
  | string s t =>
    obtain ⟨rfl, rfl⟩ := quote_append_inj h
    exact ⟨rfl, rfl⟩
  | object members others =>
    match members, others with
    | [], [] => exact ⟨rfl, List.append_cancel_left h⟩
    | [], m' :: ms' =>
      rw [toList_object] at h
      simp [pretty, memberTexts, braced] at h
    | m :: ms, [] =>
      rw [toList_object] at h
      simp [pretty, memberTexts, braced] at h
    | m :: ms, m' :: ms' =>
      rw [toList_object, toList_object] at h
      obtain ⟨rfl, hbehind⟩ := memberText_append_inj (depth + 1) m m' (ends_behind _ _ _) (ends_behind _ _ _)
        (List.tail_eq_of_cons_eq (List.tail_eq_of_cons_eq h))
      obtain ⟨rfl, hclosed⟩ := behind_inj (depth + 1) ms ms' hbehind
      exact ⟨rfl, List.tail_eq_of_cons_eq (List.append_cancel_left hclosed)⟩

theorem memberText_append_inj (depth : Nat) (m m' : String × Json) {x y : List Char} (hx : Ends x) (hy : Ends y)
    (h : (memberText depth m).toList ++ x = (memberText depth m').toList ++ y) : m = m' ∧ x = y := by
  match m, m' with
  | (name, v), (name', w) =>
    simp only [memberText, String.toList_append, List.append_assoc] at h
    obtain ⟨rfl, hvalue⟩ := quote_append_inj (List.append_cancel_left h)
    obtain ⟨rfl, rfl⟩ := pretty_append_inj depth v w hx hy (List.append_cancel_left hvalue)
    exact ⟨rfl, rfl⟩

theorem behind_inj (depth : Nat) (ms ms' : List (String × Json)) {x y : List Char}
    (h : behind depth x ms = behind depth y ms') : ms = ms' ∧ x = y := by
  match ms, ms' with
  | [], [] => exact ⟨rfl, List.tail_eq_of_cons_eq h⟩
  | [], m' :: ms' | m :: ms, [] => simp [behind] at h
  | m :: ms, m' :: ms' =>
    obtain ⟨rfl, hbehind⟩ := memberText_append_inj depth m m' (ends_behind _ _ _) (ends_behind _ _ _)
      (List.tail_eq_of_cons_eq (List.tail_eq_of_cons_eq h))
    obtain ⟨rfl, rfl⟩ := behind_inj depth ms ms' hbehind
    exact ⟨rfl, rfl⟩

end

theorem pretty_inj {depth : Nat} {v w : Json} (h : v.pretty depth = w.pretty depth) : v = w :=
  (pretty_append_inj depth v w (x := []) (y := []) (by simp [Ends]) (by simp [Ends]) (by rw [h])).1

end Json

-- ---------------------------------------------------------------------------
-- Snapshots
-- ---------------------------------------------------------------------------

theorem name_inj {h k : Health} (hname : h.name = k.name) : h = k := by
  cases h <;> cases k <;> first | rfl | exact absurd hname (by decide)

theorem evidence_inj {e f : Option String} (h : (e.map Json.string).getD .null = (f.map Json.string).getD .null) :
    e = f := by
  cases e <;> cases f <;> simp_all

theorem ProcessStatus.json_inj {p q : ProcessStatus} (hp : p.lastTransition.Valid) (hq : q.lastTransition.Valid)
    (h : p.json = q.json) : p = q := by
  simp only [json, Json.object.injEq, List.cons.injEq, Prod.mk.injEq, Json.number.injEq, Json.string.injEq,
    true_and, and_true] at h
  obtain ⟨hpid, hpgid, hcommand, hstate, htime, hevidence⟩ := h
  rw [ProcessStatus.mk.injEq, ProcessId.mk.injEq]
  exact ⟨⟨hpid, hpgid⟩, hcommand, name_inj hstate, Instant.text_inj hp hq htime, evidence_inj hevidence⟩

structure Snapshot.Valid (s : Snapshot) : Prop where
  lastUpdate : s.lastUpdate.Valid
  processes : ∀ p ∈ s.processes, p.lastTransition.Valid

theorem processes_inj {ps qs : StatusView} (hps : ∀ p ∈ ps, p.lastTransition.Valid)
    (hqs : ∀ q ∈ qs, q.lastTransition.Valid)
    (h : ps.map (fun p => (toString p.id.pid, p.json)) = qs.map fun q => (toString q.id.pid, q.json)) :
    ps = qs := by
  induction ps generalizing qs with
  | nil => exact (List.map_eq_nil_iff.mp h.symm).symm
  | cons p ps ih =>
    obtain ⟨q, qs, rfl, hq, hrest⟩ := List.map_eq_cons_iff.mp h.symm
    obtain ⟨hp, hps⟩ := List.forall_mem_cons.mp hps
    obtain ⟨hqtime, hqs⟩ := List.forall_mem_cons.mp hqs
    rw [ProcessStatus.json_inj hp hqtime (Prod.mk.inj hq).2.symm, ih hps hqs hrest.symm]

/-- Every snapshot has a text of its own. -/
theorem Snapshot.text_inj {s t : Snapshot} (hs : s.Valid) (ht : t.Valid) (h : s.text = t.text) : s = t := by
  have hjson : s.json = t.json := Json.pretty_inj h
  simp only [json, Json.object.injEq, List.cons.injEq, Prod.mk.injEq, Json.number.injEq, Json.string.injEq,
    true_and, and_true, Int.ofNat_inj] at hjson
  obtain ⟨hpid, htime, hprocesses⟩ := hjson
  rw [Snapshot.mk.injEq]
  exact ⟨hpid, Instant.text_inj hs.lastUpdate ht.lastUpdate htime, processes_inj hs.processes ht.processes hprocesses⟩

example : (Snapshot.mk 1 ⟨60, 500000000⟩ [⟨⟨7, 7⟩, "work", .stuck, ⟨60, 0⟩, some "one line for 60s"⟩]).text =
    "\x7b\n  \"pid\": 1,\n  \"last_update\": \"1970-01-01T00:01:00.500Z\",\n  \"processes\": \x7b\n" ++
    "    \"7\": \x7b\n      \"pid\": 7,\n      \"pgid\": 7,\n      \"command\": \"work\",\n" ++
    "      \"state\": \"stuck\",\n      \"last_transition\": \"1970-01-01T00:01:00Z\",\n" ++
    "      \"evidence\": \"one line for 60s\"\n    \x7d\n  \x7d\n\x7d" := by
  decide +kernel

end Vigil.Report
