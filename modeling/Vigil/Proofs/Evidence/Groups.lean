import Mathlib.Data.Finset.Card
import Mathlib.Data.List.Count
import Vigil.Evidence.Groups

/-!
# The leading group

`KeyGroup.Leads` says which key leads a list: no other one is more frequent, and those behind its last
occurrence are less frequent. At most one key does, and `dominant?_eq_some_iff` finds it. `KeyGroup.tally` is
the table that one pass over the list fills, an entry for each key with its number and its last position;
`leader_perm_tally`: the greatest entry is the same in whatever order the table is gone through. A key matters
only by what it equals (`dominant?_map`, `distinct_map`). `Answers` tells the leading group by positions in the
list, and `dominates_in_any_order`: it is the only one that does, whichever table it is read off.
-/

namespace Vigil.KeyGroup

variable {κ ν : Type} [DecidableEq κ] [DecidableEq ν] {keys ks earlier later : List κ} {k x : κ} {g : KeyGroup κ}

-- ---------------------------------------------------------------------------
-- Who leads
-- ---------------------------------------------------------------------------

/-- No key is more frequent, and none that occurs behind the last `k` is as frequent. -/
def Leads (keys : List κ) (k : κ) : Prop :=
  ∃ earlier later, keys = earlier ++ k :: later ∧ (∀ x ∈ earlier, keys.count x ≤ keys.count k) ∧
    ∀ x ∈ later, keys.count x < keys.count k

theorem Leads.mem (h : Leads keys k) : k ∈ keys := by
  obtain ⟨earlier, later, hkeys, -⟩ := h
  rw [hkeys]
  exact List.mem_append_right _ List.mem_cons_self

theorem Leads.count_le (h : Leads keys k) (x : κ) : keys.count x ≤ keys.count k := by
  obtain ⟨earlier, later, hkeys, hearlier, hlater⟩ := h
  by_cases hx : x ∈ keys
  · rw [hkeys] at hx
    rcases List.mem_append.mp hx with hx | hx
    · exact hearlier x hx
    rcases List.mem_cons.mp hx with rfl | hx
    · exact Nat.le_refl _
    · exact Nat.le_of_lt (hlater x hx)
  · rw [List.count_eq_zero_of_not_mem hx]
    exact Nat.zero_le _

/-- Two keys that lead occur last at the same place: one behind the other would be less frequent. -/
theorem Leads.unique (h : Leads keys k) (hx : Leads keys x) : k = x := by
  obtain ⟨earlier, later, hkeys, -, hlater⟩ := id h
  obtain ⟨earlier', later', hkeys', -, hlater'⟩ := id hx
  have hnot : x ∉ later := fun hmem => absurd (hx.count_le k) (Nat.not_le.mpr (hlater x hmem))
  have hnot' : k ∉ later' := fun hmem => absurd (h.count_le x) (Nat.not_le.mpr (hlater' k hmem))
  rw [hkeys] at hkeys'
  rcases List.append_eq_append_iff.mp hkeys' with ⟨between, -, hrest⟩ | ⟨between, -, hrest⟩
  · cases between with
    | nil => exact (List.cons.inj hrest).1
    | cons b between =>
      refine absurd ?_ hnot
      rw [(List.cons.inj hrest).2]
      exact List.mem_append_right _ List.mem_cons_self
  · cases between with
    | nil => exact (List.cons.inj hrest).1.symm
    | cons b between =>
      refine absurd ?_ hnot'
      rw [(List.cons.inj hrest).2]
      exact List.mem_append_right _ List.mem_cons_self

/-- From candidate to candidate, the leader is the first that no other one exceeds. -/
theorem foldl_lead (keys ks : List κ) (b : κ) :
    ∃ before k after, b :: ks = before ++ k :: after ∧ (∀ x ∈ before, keys.count x < keys.count k) ∧
      (∀ x ∈ after, keys.count x ≤ keys.count k) ∧
      ks.foldl (lead keys) (some (of keys b)) = some (of keys k) := by
  induction ks generalizing b with
  | nil => exact ⟨[], b, [], rfl, by simp, by simp, rfl⟩
  | cons c ks ih =>
    have hlead : lead keys (some (of keys b)) c =
        some (of keys (if keys.count b < keys.count c then c else b)) := by
      by_cases hlt : keys.count b < keys.count c <;> simp [lead, of, hlt]
    rw [List.foldl_cons, hlead]
    by_cases hlt : keys.count b < keys.count c
    · rw [if_pos hlt]
      obtain ⟨before, k, after, hks, hbefore, hafter, hfold⟩ := ih c
      refine ⟨b :: before, k, after, by rw [hks, List.cons_append], ?_, hafter, hfold⟩
      have hc : c ∈ before ++ k :: after := hks ▸ List.mem_cons_self
      have hck : keys.count c ≤ keys.count k := by
        rcases List.mem_append.mp hc with hc | hc
        · exact Nat.le_of_lt (hbefore c hc)
        rcases List.mem_cons.mp hc with rfl | hc
        · exact Nat.le_refl _
        · exact hafter c hc
      rintro x (_ | ⟨_, hx⟩)
      · omega
      · exact hbefore x hx
    · rw [if_neg hlt]
      obtain ⟨before, k, after, hks, hbefore, hafter, hfold⟩ := ih b
      cases before with
      | nil =>
        obtain ⟨rfl, rfl⟩ := List.cons.inj hks
        refine ⟨[], b, c :: ks, rfl, by simp, ?_, hfold⟩
        rintro x (_ | ⟨_, hx⟩)
        · omega
        · exact hafter x hx
      | cons b' before =>
        obtain ⟨rfl, rfl⟩ := List.cons.inj hks
        refine ⟨b :: c :: before, k, after, rfl, ?_, hafter, hfold⟩
        have hb := hbefore b List.mem_cons_self
        rintro x (_ | ⟨_, _ | ⟨_, hx⟩⟩)
        · exact hb
        · omega
        · exact hbefore x (List.mem_cons_of_mem _ hx)

theorem exists_leads (h : keys ≠ []) : ∃ k, Leads keys k ∧ dominant? keys = some (of keys k) := by
  obtain ⟨b, ks, hrev⟩ := List.exists_cons_of_ne_nil (mt List.reverse_eq_nil_iff.mp h)
  obtain ⟨before, k, after, hks, hbefore, hafter, hfold⟩ := foldl_lead keys ks b
  refine ⟨k, ⟨after.reverse, before.reverse, ?_, ?_, ?_⟩, ?_⟩
  · rw [← List.reverse_reverse keys, hrev, hks]
    simp
  · intro x hx
    exact hafter x (List.mem_reverse.mp hx)
  · intro x hx
    exact hbefore x (List.mem_reverse.mp hx)
  · rw [dominant?, hrev, List.foldl_cons]
    exact hfold

theorem dominant?_isSome (h : keys ≠ []) : (dominant? keys).isSome := by
  obtain ⟨k, -, hk⟩ := exists_leads h
  rw [hk, Option.isSome_some]

theorem Leads.dominant? (h : Leads keys k) : dominant? keys = some (of keys k) := by
  obtain ⟨x, hx, hdominant⟩ := exists_leads (List.ne_nil_of_mem h.mem)
  rw [hdominant, h.unique hx]

theorem dominant?_eq_some_iff : dominant? keys = some g ↔ Leads keys g.key ∧ g = of keys g.key := by
  constructor
  · intro h
    have hne : keys ≠ [] := by
      rintro rfl
      cases h
    obtain ⟨k, hk, hdominant⟩ := exists_leads hne
    rw [h] at hdominant
    rw [Option.some.inj hdominant]
    exact ⟨hk, rfl⟩
  · rintro ⟨hleads, hg⟩
    rw [hleads.dominant?, ← hg]

theorem dominant?_alike (h : keys ≠ []) (hk : ∀ x ∈ keys, x = k) :
    dominant? keys = some ⟨k, keys.length⟩ := by
  obtain ⟨x, hx, hdominant⟩ := exists_leads h
  obtain rfl := hk x hx.mem
  rw [hdominant, of, List.count_eq_length.mpr fun y hy => (hk y hy).symm]

-- ---------------------------------------------------------------------------
-- Other keys in their place
-- ---------------------------------------------------------------------------

def rekey (f : κ → ν) (g : KeyGroup κ) : KeyGroup ν := ⟨f g.key, g.count⟩

theorem Leads.map {f : κ → ν} (hf : f.Injective) (h : Leads keys k) : Leads (keys.map f) (f k) := by
  obtain ⟨earlier, later, hkeys, hearlier, hlater⟩ := h
  refine ⟨earlier.map f, later.map f, by rw [hkeys]; simp, ?_, ?_⟩
  · intro y hy
    obtain ⟨x, hx, rfl⟩ := List.mem_map.mp hy
    rw [List.count_map_of_injective _ _ hf, List.count_map_of_injective _ _ hf]
    exact hearlier x hx
  · intro y hy
    obtain ⟨x, hx, rfl⟩ := List.mem_map.mp hy
    rw [List.count_map_of_injective _ _ hf, List.count_map_of_injective _ _ hf]
    exact hlater x hx

theorem dominant?_map {f : κ → ν} (hf : f.Injective) (keys : List κ) :
    dominant? (keys.map f) = (dominant? keys).map (rekey f) := by
  by_cases hne : keys = []
  · rw [hne]
    rfl
  · obtain ⟨k, hk, hdominant⟩ := exists_leads hne
    rw [(hk.map hf).dominant?, hdominant, of, List.count_map_of_injective _ _ hf]
    rfl

theorem nodup_eraseDups (keys : List κ) : keys.eraseDups.Nodup := by
  obtain ⟨n, hn⟩ : ∃ n, keys.length = n := ⟨_, rfl⟩
  induction n using Nat.strong_induction_on generalizing keys with
  | _ n ih =>
    cases keys with
    | nil => exact List.nodup_nil
    | cons k ks =>
      rw [List.eraseDups_cons, List.nodup_cons]
      constructor
      · simp
      · have hshorter := List.length_filter_le (fun b => !b == k) ks
        exact ih _ (by simp at hn; omega) _ rfl

theorem distinct_eq_card (keys : List κ) : distinct keys = keys.toFinset.card := by
  have hsame : keys.eraseDups.toFinset = keys.toFinset := by
    ext x
    simp
  rw [distinct, ← hsame, List.toFinset_card_of_nodup (nodup_eraseDups keys)]

theorem distinct_map {f : κ → ν} (hf : f.Injective) (keys : List κ) :
    distinct (keys.map f) = distinct keys := by
  have himage : (keys.map f).toFinset = keys.toFinset.image f := by
    ext y
    simp
  rw [distinct_eq_card, distinct_eq_card, himage, Finset.card_image_of_injective _ hf]

-- ---------------------------------------------------------------------------
-- How large the groups are
-- ---------------------------------------------------------------------------

def largest (keys : List κ) : Nat := (keys.map keys.count).max?.getD 0

theorem Leads.largest (h : Leads keys k) : largest keys = keys.count k := by
  have hmax : (keys.map keys.count).max? = some (keys.count k) := by
    refine List.max?_eq_some_iff.mpr ⟨List.mem_map_of_mem h.mem, fun n hn => ?_⟩
    obtain ⟨x, -, rfl⟩ := List.mem_map.mp hn
    exact h.count_le x
  rw [KeyGroup.largest, hmax, Option.getD_some]

theorem Leads.count_pos (h : Leads keys k) : 0 < keys.count k := List.count_pos_iff.mpr h.mem

theorem distinct_add_count_le (keys : List κ) (k : κ) : distinct keys + keys.count k ≤ keys.length + 1 := by
  have hsplit := List.length_eq_countP_add_countP (· == k) (l := keys)
  have hothers : (keys.toFinset.erase k).card ≤ keys.countP (fun x => decide ¬ (x == k) = true) := by
    have hset : (keys.filter fun x => decide ¬ (x == k) = true).toFinset = keys.toFinset.erase k := by
      ext x
      simp [and_comm]
    rw [List.countP_eq_length_filter, ← hset]
    exact List.toFinset_card_le _
  have herase := Finset.pred_card_le_card_erase (s := keys.toFinset) (a := k)
  rw [distinct_eq_card, List.count_eq_countP]
  omega

-- ---------------------------------------------------------------------------
-- Counting by a table
-- ---------------------------------------------------------------------------

structure Tally (κ : Type) where
  key : κ
  count : Nat
  last : Nat
  deriving DecidableEq, Repr

namespace Tally

def group (e : Tally κ) : KeyGroup κ := ⟨e.key, e.count⟩

def below (e f : Tally κ) : Bool := e.count < f.count || e.count == f.count && e.last < f.last

end Tally

def note (i : Nat) (k : κ) : List (Tally κ) → List (Tally κ)
  | [] => [⟨k, 1, i⟩]
  | e :: es => if e.key = k then { e with count := e.count + 1, last := i } :: es else e :: note i k es

def tally (keys : List κ) : List (Tally κ) := keys.zipIdx.foldl (fun es p => note p.2 p.1 es) []

def greater (best : Option (Tally κ)) (e : Tally κ) : Option (Tally κ) :=
  match best with
  | none => some e
  | some b => if e.below b then some b else some e

def leader (es : List (Tally κ)) : Option (Tally κ) := es.foldl greater none

structure Records (keys : List κ) (e : Tally κ) : Prop where
  count : e.count = keys.count e.key
  found : keys[e.last]? = some e.key
  last : e.key ∉ keys.drop (e.last + 1)

structure Tallied (keys : List κ) (es : List (Tally κ)) : Prop where
  nodup : (es.map (·.key)).Nodup
  mem_iff : ∀ k, k ∈ es.map (·.key) ↔ k ∈ keys
  records : ∀ e ∈ es, Records keys e

theorem tally_snoc (keys : List κ) (k : κ) : tally (keys ++ [k]) = note keys.length k (tally keys) := by
  simp [tally, List.zipIdx_append]

theorem map_key_note (i : Nat) (k : κ) (es : List (Tally κ)) :
    (note i k es).map (·.key) = if k ∈ es.map (·.key) then es.map (·.key) else es.map (·.key) ++ [k] := by
  induction es with
  | nil => rfl
  | cons e es ih =>
    unfold note
    by_cases he : e.key = k
    · simp [he]
    · rw [if_neg he, List.map_cons, ih]
      have hk : k ≠ e.key := fun h => he h.symm
      by_cases hmem : k ∈ es.map (·.key) <;> simp [hmem, hk]

theorem of_mem_note {i : Nat} {es : List (Tally κ)} (hes : (es.map (·.key)).Nodup) {e : Tally κ}
    (he : e ∈ note i k es) :
    e ∈ es ∧ e.key ≠ k ∨ (∃ f ∈ es, f.key = k ∧ e = ⟨k, f.count + 1, i⟩) ∨
      k ∉ es.map (·.key) ∧ e = ⟨k, 1, i⟩ := by
  induction es with
  | nil => exact .inr (.inr ⟨by simp, List.mem_singleton.mp he⟩)
  | cons f es ih =>
    obtain ⟨hf, hnodup⟩ := List.nodup_cons.mp hes
    unfold note at he
    by_cases hk : f.key = k
    · rw [if_pos hk] at he
      rcases List.mem_cons.mp he with rfl | he
      · exact .inr (.inl ⟨f, List.mem_cons_self, hk, by rw [← hk]⟩)
      · refine .inl ⟨List.mem_cons_of_mem _ he, fun hkey => hf ?_⟩
        exact List.mem_map.mpr ⟨e, he, hkey.trans hk.symm⟩
    · rw [if_neg hk] at he
      rcases List.mem_cons.mp he with rfl | he
      · exact .inl ⟨List.mem_cons_self, hk⟩
      · rcases ih hnodup he with ⟨hmem, hne⟩ | ⟨f', hf', hkey, rfl⟩ | ⟨hnone, rfl⟩
        · exact .inl ⟨List.mem_cons_of_mem _ hmem, hne⟩
        · exact .inr (.inl ⟨f', List.mem_cons_of_mem _ hf', hkey, rfl⟩)
        · refine .inr (.inr ⟨?_, rfl⟩)
          rw [List.map_cons, List.mem_cons]
          rintro (h | h)
          · exact hk h.symm
          · exact hnone h

theorem Records.snoc {e : Tally κ} (h : Records keys e) (hk : e.key ≠ k) : Records (keys ++ [k]) e where
  count := by
    rw [h.count, List.count_append, List.count_singleton]
    simp [Ne.symm hk]
  found := by
    rw [List.getElem?_append_left (List.getElem?_eq_some_iff.mp h.found).1]
    exact h.found
  last := by
    rw [List.drop_append_of_le_length (List.getElem?_eq_some_iff.mp h.found).1]
    simp [h.last, hk]

theorem records_last (keys : List κ) (k : κ) : Records (keys ++ [k]) ⟨k, keys.count k + 1, keys.length⟩ where
  count := by simp
  found := by simp
  last := by simp

theorem Tallied.note {es : List (Tally κ)} (h : Tallied keys es) (k : κ) :
    Tallied (keys ++ [k]) (note keys.length k es) where
  nodup := by
    rw [map_key_note]
    split
    · exact h.nodup
    · rename_i hk
      exact List.nodup_append.mpr ⟨h.nodup, List.nodup_singleton k, by
        intro a ha b hb
        rw [List.mem_singleton.mp hb]
        rintro rfl
        exact hk ha⟩
  mem_iff x := by
    have hx := h.mem_iff x
    rw [map_key_note]
    split
    · rename_i hk
      rw [hx, List.mem_append, List.mem_singleton]
      refine ⟨.inl, ?_⟩
      rintro (hmem | rfl)
      · exact hmem
      · exact (h.mem_iff x).mp hk
    · rw [List.mem_append, List.mem_append, hx]
  records e he := by
    rcases of_mem_note h.nodup he with ⟨hmem, hne⟩ | ⟨f, hf, rfl, rfl⟩ | ⟨hnone, rfl⟩
    · exact (h.records e hmem).snoc hne
    · rw [(h.records f hf).count]
      exact records_last keys f.key
    · have hzero : keys.count k = 0 := List.count_eq_zero_of_not_mem fun hk => hnone ((h.mem_iff k).mpr hk)
      simpa [hzero] using records_last keys k

theorem tallied_tally (keys : List κ) : Tallied keys (tally keys) := by
  induction keys using List.reverseRecOn with
  | nil => exact ⟨List.nodup_nil, by simp [tally], by simp [tally]⟩
  | append_singleton keys k ih =>
    rw [tally_snoc]
    exact ih.note k

theorem Tallied.perm {es fs : List (Tally κ)} (h : Tallied keys es) (hperm : fs.Perm es) : Tallied keys fs where
  nodup := (hperm.map _).nodup_iff.mpr h.nodup
  mem_iff k := (hperm.map _).mem_iff.trans (h.mem_iff k)
  records e he := h.records e (hperm.mem_iff.mp he)

theorem Records.last_lt {e f : Tally κ} (hf : Records keys f) (hmem : f.key ∈ keys.drop (e.last + 1)) :
    e.last < f.last := by
  refine Nat.lt_of_not_le fun hle => hf.last ?_
  exact (List.drop_suffix_drop_left keys (Nat.succ_le_succ hle)).subset hmem

omit [DecidableEq κ] in
theorem below_iff {e f : Tally κ} : e.below f ↔ e.count < f.count ∨ e.count = f.count ∧ e.last < f.last := by
  simp [Tally.below]

omit [DecidableEq κ] in
theorem foldl_greater (es : List (Tally κ)) (b : Tally κ) :
    ∃ e ∈ b :: es, es.foldl greater (some b) = some e ∧ ∀ f ∈ b :: es, ¬ e.below f := by
  induction es generalizing b with
  | nil => exact ⟨b, List.mem_cons_self, rfl, by simp [below_iff]⟩
  | cons c es ih =>
    have hgreater : greater (some b) c = some (if c.below b then b else c) := by
      by_cases h : c.below b <;> simp [greater, h]
    rw [List.foldl_cons, hgreater]
    by_cases h : c.below b
    · rw [if_pos h]
      obtain ⟨e, he, hfold, hmost⟩ := ih b
      refine ⟨e, ?_, hfold, ?_⟩
      · rcases List.mem_cons.mp he with rfl | he <;> simp [*]
      · have hb := hmost b List.mem_cons_self
        rintro f (_ | ⟨_, _ | ⟨_, hf⟩⟩)
        · exact hb
        · rw [below_iff] at h hb ⊢
          omega
        · exact hmost f (List.mem_cons_of_mem _ hf)
    · rw [if_neg h]
      obtain ⟨e, he, hfold, hmost⟩ := ih c
      refine ⟨e, List.mem_cons_of_mem _ he, hfold, ?_⟩
      have hc := hmost c List.mem_cons_self
      rintro f (_ | ⟨_, hf⟩)
      · rw [below_iff] at h hc ⊢
        omega
      · exact hmost f hf

theorem Tallied.leads {es : List (Tally κ)} (h : Tallied keys es) {e : Tally κ} (he : e ∈ es)
    (hmost : ∀ f ∈ es, ¬ e.below f) : Leads keys e.key := by
  have hrecords := h.records e he
  have hentry {x : κ} (hx : x ∈ keys) : ∃ f ∈ es, f.key = x := List.mem_map.mp ((h.mem_iff x).mpr hx)
  obtain ⟨hlt, hfound⟩ := List.getElem?_eq_some_iff.mp hrecords.found
  refine ⟨keys.take e.last, keys.drop (e.last + 1), ?_, ?_, ?_⟩
  · rw [← hfound, List.getElem_cons_drop, List.take_append_drop]
  · intro x hx
    obtain ⟨f, hf, rfl⟩ := hentry (List.mem_of_mem_take hx)
    have hle := hmost f hf
    rw [below_iff, hrecords.count, (h.records f hf).count] at hle
    omega
  · intro x hx
    obtain ⟨f, hf, rfl⟩ := hentry (List.mem_of_mem_drop hx)
    have hlast := (h.records f hf).last_lt hx
    have hle := hmost f hf
    rw [below_iff, hrecords.count, (h.records f hf).count] at hle
    omega

/-- A table names the leader in whatever order it is gone through. -/
theorem leader_perm_tally {es : List (Tally κ)} (h : es.Perm (tally keys)) :
    (leader es).map Tally.group = dominant? keys := by
  have htallied := (tallied_tally keys).perm h
  cases es with
  | nil =>
    have hnone : keys = [] := List.eq_nil_iff_forall_not_mem.mpr fun k hk => by
      simpa using (htallied.mem_iff k).mpr hk
    rw [hnone]
    rfl
  | cons b es =>
    obtain ⟨e, he, hfold, hmost⟩ := foldl_greater es b
    rw [(htallied.leads he hmost).dominant?, leader, List.foldl_cons]
    show (es.foldl greater (some b)).map Tally.group = _
    rw [hfold, Option.map_some, Tally.group, (htallied.records e he).count, of]

-- ---------------------------------------------------------------------------
-- The only answer
-- ---------------------------------------------------------------------------

/-- What a group must be to answer for the keys. No key is more frequent, and no equally frequent one still
occurs when this one has occurred for the last time. -/
structure Answers (keys : List κ) (g : KeyGroup κ) : Prop where
  counted : g.count = keys.count g.key
  most : ∀ x, keys.count x ≤ g.count
  latest : ∀ (i : Nat) x, keys[i]? = some x → keys.count x = g.count → ∃ j, i ≤ j ∧ keys[j]? = some g.key

theorem answers_nil (k : κ) : Answers [] ⟨k, 0⟩ where
  counted := List.count_nil.symm
  most x := Nat.le_of_eq List.count_nil
  latest i x hi := by simp at hi

theorem Leads.answers (h : Leads keys k) : Answers keys (of keys k) where
  counted := rfl
  most := h.count_le
  latest i x hi hx := by
    obtain ⟨earlier, later, hkeys, -, hlater⟩ := h
    refine ⟨earlier.length, Nat.le_of_not_lt fun hlt => ?_, by rw [hkeys, of]; simp⟩
    -- What stands behind the last occurrence of the leader is less frequent.
    have hmem : x ∈ later := by
      rw [hkeys, List.getElem?_append_right (Nat.le_of_lt hlt), List.getElem?_cons,
        if_neg (Nat.sub_ne_zero_of_lt hlt)] at hi
      exact List.mem_of_getElem? hi
    exact absurd hx (Nat.ne_of_lt (hlater x hmem))

theorem Answers.count_pos (h : Answers keys g) (hne : keys ≠ []) : 0 < g.count := by
  obtain ⟨x, hx⟩ := List.exists_mem_of_ne_nil keys hne
  exact Nat.lt_of_lt_of_le (List.count_pos_iff.mpr hx) (h.most x)

theorem Answers.leads (h : Answers keys g) (hne : keys ≠ []) : Leads keys g.key := by
  have hmem : g.key ∈ keys := List.count_pos_iff.mp (h.counted ▸ h.count_pos hne)
  obtain ⟨e, he, hkey⟩ := List.mem_map.mp (((tallied_tally keys).mem_iff g.key).mpr hmem)
  have hrecords := (tallied_tally keys).records e he
  obtain ⟨hlt, hfound⟩ := List.getElem?_eq_some_iff.mp hrecords.found
  have hlast := hrecords.last
  rw [hkey] at hfound hlast
  refine ⟨keys.take e.last, keys.drop (e.last + 1), ?_, fun x _ => h.counted ▸ h.most x, fun x hx => ?_⟩
  · rw [← hfound, List.getElem_cons_drop, List.take_append_drop]
  -- One as frequent behind the last `g.key` would have another `g.key` behind it.
  · refine Nat.lt_of_le_of_ne (h.counted ▸ h.most x) fun heq => ?_
    obtain ⟨i, hi⟩ := List.mem_iff_getElem?.mp hx
    rw [List.getElem?_drop] at hi
    obtain ⟨j, hij, hj⟩ := h.latest _ x hi (heq.trans h.counted.symm)
    refine hlast (List.mem_iff_getElem?.mpr ⟨j - (e.last + 1), ?_⟩)
    rw [List.getElem?_drop, Nat.add_sub_cancel' (by omega)]
    exact hj

theorem Answers.dominant? (h : Answers keys g) (hne : keys ≠ []) : dominant? keys = some g :=
  dominant?_eq_some_iff.mpr ⟨h.leads hne, by rw [of, ← h.counted]⟩

def readOff (fallback : κ) (es : List (Tally κ)) : KeyGroup κ := ((leader es).map Tally.group).getD ⟨fallback, 0⟩

/-- A group is the one answer for the keys, and that of every table of them. -/
structure Dominates (fallback : κ) (keys : List κ) (g : KeyGroup κ) : Prop where
  answers : Answers keys g
  unique : keys ≠ [] → ∀ other, Answers keys other → other = g
  of_nil : keys = [] → g.key = fallback
  none_iff : g.count = 0 ↔ keys = []
  any_order : ∀ es, es.Perm (tally keys) → readOff fallback es = g

theorem dominates_in_any_order (fallback : κ) (keys : List κ) :
    Dominates fallback keys ((dominant? keys).getD ⟨fallback, 0⟩) := by
  have horder : ∀ es, es.Perm (tally keys) → readOff fallback es = (dominant? keys).getD ⟨fallback, 0⟩ :=
    fun es hes => by rw [readOff, leader_perm_tally hes]
  by_cases hne : keys = []
  · subst hne
    exact ⟨answers_nil fallback, fun h => absurd rfl h, fun _ => rfl, iff_of_true rfl rfl, horder⟩
  · obtain ⟨k, hk, hdominant⟩ := exists_leads hne
    rw [hdominant, Option.getD_some] at horder ⊢
    refine ⟨hk.answers, fun _ other hother => ?_, fun h => absurd h hne,
      iff_of_false (Nat.ne_of_gt (hk.answers.count_pos hne)) hne, horder⟩
    exact Option.some.inj ((hother.dominant? hne).symm.trans hdominant)

example : [dominant? [1, 1, 2, 2], dominant? [2, 1, 2, 1]] = [some ⟨2, 2⟩, some ⟨1, 2⟩] := by decide

end Vigil.KeyGroup
