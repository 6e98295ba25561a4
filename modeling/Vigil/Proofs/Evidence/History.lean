import Vigil.Proofs.Evidence.Rings

/-!
# A ring and its history

A ring is pushed to, pruned and cleared in any order, at times in any order. `Ring.history` notes what has
happened to it since it was last cleared: which entries were accepted, and when old ones were dropped.
`Ring.faithful_to_history`: what the ring holds is the end of what it has accepted, and an accepted entry
is missing just when it has been outlived, by as many later ones as the ring has room for or by its own age.
-/

namespace Vigil.Ring

variable {α : Type} {r : Ring α} {capacity t now window : Nat} {maxAge : Option Nat} {a : α}
  {e : Stamped α} {older newer : List (Stamped α)}

-- ---------------------------------------------------------------------------
-- Order
-- ---------------------------------------------------------------------------

def Ordered (r : Ring α) : Prop := r.entries.Pairwise (·.time ≤ ·.time)

theorem ordered_empty (capacity : Nat) (maxAge : Option Nat) : (empty capacity maxAge : Ring α).Ordered :=
  .nil

@[simp] theorem maxAge_prune (r : Ring α) (now : Nat) : (r.prune now).maxAge = r.maxAge := by
  unfold prune
  split <;> rfl

theorem entries_prune_suffix (r : Ring α) (now : Nat) : (r.prune now).entries <:+ r.entries := by
  unfold prune
  split
  · exact List.suffix_refl _
  · exact List.dropWhile_suffix _

theorem Ordered.prune (hr : r.Ordered) (now : Nat) : (r.prune now).Ordered :=
  hr.sublist (entries_prune_suffix r now).sublist

def appended (r : Ring α) (t : Nat) (a : α) : Ring α :=
  { r with
    entries := (if r.isAtCapacity then r.entries.drop 1 else r.entries) ++ [⟨t, a⟩]
    evicted := r.evicted || r.isAtCapacity }

theorem push_accepted (h : r.accepts t) : r.push t a = (r.appended t a).prune t := if_pos h

theorem push_refused (h : r.accepts t = false) : r.push t a = r := by
  rw [push, h]
  exact if_neg Bool.false_ne_true

@[simp] theorem clear_prune (r : Ring α) (now : Nat) : (r.prune now).clear = r.clear := by
  unfold prune
  split <;> rfl

@[simp] theorem clear_push (r : Ring α) (t : Nat) (a : α) : (r.push t a).clear = r.clear := by
  unfold push
  split
  · exact clear_prune _ _
  · rfl

theorem accepts_iff : r.accepts t ↔ ∀ e ∈ r.newest?, e.time ≤ t := by
  simp [accepts, Option.all_eq_true]

theorem refuses_iff : r.accepts t = false ↔ ∃ e ∈ r.newest?, t < e.time := by
  rw [← Bool.not_eq_true, accepts_iff]
  simp

theorem Ordered.le_newest (hr : r.Ordered) (he : e ∈ r.entries) {last : Stamped α}
    (hlast : last ∈ r.newest?) : e.time ≤ last.time := by
  obtain ⟨front, hfront⟩ := List.getLast?_eq_some_iff.mp hlast
  unfold Ordered at hr
  rw [hfront] at he hr
  rcases List.mem_append.mp he with he | he
  · exact (List.pairwise_append.mp hr).2.2 e he last List.mem_cons_self
  · exact Nat.le_of_eq (congrArg Stamped.time (List.mem_singleton.mp he))

theorem Ordered.le_of_accepts (hr : r.Ordered) (h : r.accepts t) (he : e ∈ r.entries) : e.time ≤ t := by
  obtain ⟨last, hlast⟩ := Option.isSome_iff_exists.mp (List.getLast?_isSome.mpr (List.ne_nil_of_mem he))
  exact Nat.le_trans (hr.le_newest he hlast) (accepts_iff.mp h last hlast)

theorem entries_appended_suffix (r : Ring α) (t : Nat) (a : α) :
    (r.appended t a).entries <:+ r.entries ++ [⟨t, a⟩] := by
  refine List.suffix_append_self_iff.mpr ?_
  split
  · exact List.drop_suffix 1 _
  · exact List.suffix_refl _

theorem Ordered.appended (hr : r.Ordered) (h : r.accepts t) (a : α) : (r.appended t a).Ordered := by
  refine List.Pairwise.sublist (entries_appended_suffix r t a).sublist ?_
  refine List.pairwise_append.mpr ⟨hr, List.pairwise_singleton _ _, ?_⟩
  intro e he f hf
  rw [List.mem_singleton.mp hf]
  exact hr.le_of_accepts h he

theorem Ordered.push (hr : r.Ordered) (t : Nat) (a : α) : (r.push t a).Ordered := by
  by_cases h : r.accepts t
  · rw [push_accepted h]
    exact (hr.appended h a).prune t
  · rw [push_refused (by simpa using h)]
    exact hr

-- ---------------------------------------------------------------------------
-- What gives way
-- ---------------------------------------------------------------------------

theorem length_dropWhile_le_iff {p : Stamped α → Bool} (hp : p e → ∀ x ∈ older, p x) :
    ((older ++ e :: newer).dropWhile p).length ≤ newer.length ↔ p e := by
  induction older with
  | nil =>
    rw [List.nil_append, List.dropWhile_cons]
    split
    · rename_i he
      simp [he, (List.dropWhile_suffix p).length_le]
    · rename_i he
      simp [he]
  | cons x older ih =>
    rw [List.cons_append, List.dropWhile_cons]
    split
    · exact ih fun he y hy => hp he y (List.mem_cons_of_mem _ hy)
    · rename_i hx
      have he : ¬ p e := fun he => hx (hp he x List.mem_cons_self)
      have hlonger : ¬ (x :: (older ++ e :: newer)).length ≤ newer.length := by
        simp only [List.length_cons, List.length_append]
        omega
      exact iff_of_false hlonger he

theorem Ordered.size_prune_le_iff (hr : r.Ordered) (h : r.entries = older ++ e :: newer) (now : Nat) :
    (r.prune now).size ≤ newer.length ↔ ∃ age ∈ r.maxAge, age < now - e.time := by
  have holder : ∀ x ∈ older, x.time ≤ e.time := by
    unfold Ordered at hr
    rw [h] at hr
    exact fun x hx => (List.pairwise_append.mp hr).2.2 x hx e List.mem_cons_self
  unfold Ring.prune
  cases hage : r.maxAge with
  | none =>
    have hall : newer.length < r.size := by
      simp only [size, h, List.length_append, List.length_cons]
      omega
    simpa using hall
  | some age =>
    have hp : decide (age < now - e.time) → ∀ x ∈ older, decide (age < now - x.time) := by
      intro he x hx
      have hle := holder x hx
      have hlt := of_decide_eq_true he
      exact decide_eq_true (by omega)
    have hreach : ((older ++ e :: newer).dropWhile fun x => decide (age < now - x.time)).length ≤
        newer.length ↔ decide (age < now - e.time) := length_dropWhile_le_iff hp
    simpa [size, h] using hreach

theorem evicted_prune_iff (r : Ring α) (now : Nat) :
    (r.prune now).evicted ↔ r.evicted ∨ (r.prune now).size < r.size := by
  unfold prune
  cases r.maxAge with
  | none => simp
  | some age =>
    have hle := (List.dropWhile_suffix (l := r.entries) fun e => decide (age < now - e.time)).length_le
    rw [Bool.or_eq_true, bne_iff_ne]
    refine or_congr_right ?_
    simp only [size]
    omega

theorem Holds.size_appended (hr : r.Holds capacity) (t : Nat) (a : α) :
    (r.appended t a).size = min (r.size + 1) (max capacity 1) := by
  have hsize : r.entries.length ≤ max capacity 1 := hr.size_le
  have hfull : r.isAtCapacity ↔ r.entries.length = max capacity 1 := by
    rw [← hr.capacity]
    exact beq_iff_eq
  have happended : (r.appended t a).size =
      (if r.isAtCapacity then r.entries.drop 1 else r.entries).length + 1 := by
    simp [appended, Ring.size]
  rw [happended, Ring.size]
  split
  · rename_i hat
    have hlen := hfull.mp hat
    rw [List.length_drop]
    omega
  · rename_i hat
    have hlen := mt hfull.mpr hat
    omega

theorem Holds.evicted_appended_iff (hr : r.Holds capacity) (t : Nat) (a : α) :
    (r.appended t a).evicted ↔ r.evicted ∨ (r.appended t a).size < r.size + 1 := by
  have hsize := hr.size_le
  have hevicted : (r.appended t a).evicted ↔ r.evicted ∨ r.size = max capacity 1 := by
    simp [Ring.appended, isAtCapacity, hr.capacity]
  rw [hr.size_appended, hevicted]
  refine or_congr_right ?_
  omega

-- ---------------------------------------------------------------------------
-- The newest entry
-- ---------------------------------------------------------------------------

theorem size_push_pos (h : r.accepts t) (hord : r.Ordered) : 0 < (r.push t a).size := by
  refine Nat.lt_of_not_le fun hnone => ?_
  rw [push_accepted h] at hnone
  obtain ⟨age, -, hlt⟩ := ((hord.appended h a).size_prune_le_iff rfl t).mp hnone
  simp at hlt

theorem newest?_push (h : r.accepts t) (hord : r.Ordered) (a : α) : (r.push t a).newest? = some ⟨t, a⟩ := by
  have hsuffix : (r.push t a).entries <:+ r.entries ++ [⟨t, a⟩] := by
    rw [push_accepted h]
    exact (entries_prune_suffix _ _).trans (entries_appended_suffix _ _ _)
  have hlast : [⟨t, a⟩] <:+ (r.push t a).entries :=
    List.suffix_of_suffix_length_le (List.suffix_append _ _) hsuffix (size_push_pos h hord)
  exact List.singleton_suffix_iff_getLast?_eq_some.mp hlast

theorem newest?_prune (hord : r.Ordered) (h : e ∈ (r.prune now).newest?) :
    e ∈ r.newest? ∧ ∀ age ∈ r.maxAge, now - e.time ≤ age := by
  have hkept : [e] <:+ (r.prune now).entries := List.singleton_suffix_iff_getLast?_eq_some.mpr h
  have hlast : e ∈ r.newest? :=
    List.singleton_suffix_iff_getLast?_eq_some.mp (hkept.trans (entries_prune_suffix r now))
  obtain ⟨front, hfront⟩ := List.getLast?_eq_some_iff.mp hlast
  refine ⟨hlast, fun age hage => Nat.le_of_not_lt fun hold => ?_⟩
  have hnone : (r.prune now).size ≤ 0 := (hord.size_prune_le_iff hfront now).mpr ⟨age, hage, hold⟩
  exact Nat.not_le_of_lt hkept.length_le hnone

-- ---------------------------------------------------------------------------
-- Histories
-- ---------------------------------------------------------------------------

inductive Happening (α : Type) where
  | accepted (e : Stamped α)
  | pruned (now : Nat)

namespace Happening

def time : Happening α → Nat
  | accepted e => e.time
  | pruned now => now

def entry? : Happening α → Option (Stamped α)
  | accepted e => some e
  | pruned _ => none

end Happening

def admitted (past : List (Happening α)) : List (Stamped α) := past.filterMap Happening.entry?

@[simp] theorem admitted_append (past after : List (Happening α)) :
    admitted (past ++ after) = admitted past ++ admitted after := List.filterMap_append

@[simp] theorem admitted_accepted (e : Stamped α) (past : List (Happening α)) :
    admitted (.accepted e :: past) = e :: admitted past := rfl

@[simp] theorem admitted_pruned (now : Nat) (past : List (Happening α)) :
    admitted (.pruned now :: past) = admitted past := rfl

@[simp] theorem admitted_nil : admitted ([] : List (Happening α)) = [] := rfl

inductive Request (α : Type) where
  | push (time : Nat) (value : α)
  | prune (now : Nat)
  | clear

def serve (r : Ring α) : Request α → Ring α
  | .push t a => r.push t a
  | .prune now => r.prune now
  | .clear => r.clear

theorem Ordered.serve (hr : r.Ordered) (q : Request α) : (r.serve q).Ordered := by
  cases q with
  | push t a => exact hr.push t a
  | prune now => exact hr.prune now
  | clear => exact List.Pairwise.nil

theorem clear_serve (r : Ring α) (q : Request α) : (r.serve q).clear = r.clear := by
  cases q with
  | push t a => exact clear_push r t a
  | prune now => exact clear_prune r now
  | clear => rfl

/-- The history after a request: a push is noted if it is accepted, and a clear begins anew. -/
def note (r : Ring α) (past : List (Happening α)) : Request α → List (Happening α)
  | .push t a => if r.accepts t then past ++ [.accepted ⟨t, a⟩] else past
  | .prune now => past ++ [.pruned now]
  | .clear => []

def history (r : Ring α) (past : List (Happening α)) : List (Request α) → List (Happening α)
  | [] => past
  | q :: qs => history (r.serve q) (r.note past q) qs

/-- An accepted entry has to go: as many others have been accepted after it as there is room for, or it was
too old when another one was accepted or old ones were dropped. -/
def Outlived (capacity : Nat) (maxAge : Option Nat) (e : Stamped α) (after : List (Happening α)) : Prop :=
  max capacity 1 ≤ (admitted after).length ∨
    ∃ age ∈ maxAge, ∃ h ∈ .accepted e :: after, age < h.time - e.time

theorem not_outlived_nil : ¬ Outlived capacity maxAge e [] := by
  rintro (hcap | ⟨age, -, h, hh, hlt⟩)
  · simp only [admitted_nil, List.length_nil] at hcap
    omega
  · rw [List.mem_singleton.mp hh] at hlt
    simp [Happening.time] at hlt

theorem outlived_snoc {after : List (Happening α)} {h : Happening α} :
    Outlived capacity maxAge e (after ++ [h]) ↔
      Outlived capacity maxAge e after ∨ max capacity 1 ≤ (admitted (after ++ [h])).length ∨
        ∃ age ∈ maxAge, age < h.time - e.time := by
  have hmono : (admitted after).length ≤ (admitted (after ++ [h])).length := by simp
  constructor
  · rintro (hcap | ⟨age, hage, g, hg, hlt⟩)
    · exact .inr (.inl hcap)
    · rw [← List.cons_append] at hg
      rcases List.mem_append.mp hg with hg | hg
      · exact .inl (.inr ⟨age, hage, g, hg, hlt⟩)
      · rw [List.mem_singleton.mp hg] at hlt
        exact .inr (.inr ⟨age, hage, hlt⟩)
  · rintro ((hcap | ⟨age, hage, g, hg, hlt⟩) | hcap | ⟨age, hage, hlt⟩)
    · exact .inl (Nat.le_trans hcap hmono)
    · exact .inr ⟨age, hage, g, List.mem_append_left _ hg, hlt⟩
    · exact .inl hcap
    · exact .inr ⟨age, hage, h, by simp, hlt⟩

-- ---------------------------------------------------------------------------
-- One happening
-- ---------------------------------------------------------------------------

def undergo (r : Ring α) : Happening α → Ring α
  | .accepted e => r.push e.time e.value
  | .pruned now => r.prune now

/-- Only an entry that the ring accepts is noted as accepted. -/
def Admits (r : Ring α) (h : Happening α) : Prop := ∀ e ∈ h.entry?, r.accepts e.time

theorem Holds.undergo (hr : r.Holds capacity) (h : Happening α) : (r.undergo h).Holds capacity := by
  cases h with
  | accepted e => exact hr.push _ _
  | pruned now => exact hr.prune now

theorem Ordered.undergo (hr : r.Ordered) (h : Happening α) : (r.undergo h).Ordered := by
  cases h with
  | accepted e => exact hr.push _ _
  | pruned now => exact hr.prune now

@[simp] theorem maxAge_undergo (r : Ring α) (h : Happening α) : (r.undergo h).maxAge = r.maxAge := by
  cases h with
  | accepted e =>
    by_cases ha : r.accepts e.time
    · rw [undergo, push_accepted ha, maxAge_prune]
      rfl
    · rw [undergo, push_refused (by simpa using ha)]
  | pruned now => exact maxAge_prune r now

theorem entries_undergo_suffix {h : Happening α} (ha : r.Admits h) :
    (r.undergo h).entries <:+ r.entries ++ admitted [h] := by
  cases h with
  | accepted e =>
    rw [undergo, push_accepted (ha e rfl)]
    exact (entries_prune_suffix _ _).trans (entries_appended_suffix _ _ _)
  | pruned now => simpa [undergo] using entries_prune_suffix r now

theorem Holds.evicted_undergo_iff (hr : r.Holds capacity) {h : Happening α} (ha : r.Admits h) :
    (r.undergo h).evicted ↔ r.evicted ∨ (r.undergo h).size < r.size + (admitted [h]).length := by
  cases h with
  | accepted e =>
    have hprune := size_prune_le (r.appended e.time e.value) e.time
    have hsize := hr.size_appended e.time e.value
    rw [Ring.undergo, push_accepted (ha e rfl), evicted_prune_iff, hr.evicted_appended_iff, or_assoc]
    refine or_congr_right ?_
    simp only [admitted_accepted, admitted_nil, List.length_singleton]
    omega
  | pruned now => simpa [Ring.undergo] using evicted_prune_iff r now

theorem Holds.size_undergo_le_iff (hr : r.Holds capacity) (hord : r.Ordered)
    (he : r.entries = older ++ e :: newer) {h : Happening α} (ha : r.Admits h) :
    (r.undergo h).size ≤ (newer ++ admitted [h]).length ↔
      max capacity 1 ≤ (newer ++ admitted [h]).length ∨ ∃ age ∈ r.maxAge, age < h.time - e.time := by
  have hsize : r.size = older.length + (newer.length + 1) := by simp [Ring.size, he]
  have hle := hr.size_le
  cases h with
  | accepted f =>
    have hprune := size_prune_le (r.appended f.time f.value) f.time
    have hcut := hr.size_appended f.time f.value
    rw [Ring.undergo, push_accepted (ha f rfl)]
    by_cases hcap : max capacity 1 ≤ (newer ++ [f]).length
    · have hgone : ((r.appended f.time f.value).prune f.time).size ≤ (newer ++ [f]).length := by omega
      simp only [admitted_accepted, admitted_nil, hcap, hgone, true_or]
    · -- the entry has not lost its place, so what follows is left to its age
      have hroom : (e :: (newer ++ [f])).length ≤ (r.appended f.time f.value).entries.length := by
        simp only [Ring.size, List.length_cons, List.length_append, List.length_nil] at hcut hsize hcap ⊢
        omega
      have hwhole : e :: (newer ++ [f]) <:+ r.entries ++ [f] := ⟨older, by simp [he]⟩
      obtain ⟨kept, hkept⟩ := List.suffix_of_suffix_length_le hwhole
        (entries_appended_suffix r f.time f.value) hroom
      have haged := (hord.appended (ha f rfl) f.value).size_prune_le_iff hkept.symm f.time
      rw [admitted_accepted, admitted_nil, or_iff_right hcap]
      exact haged
  | pruned now =>
    have hroom : ¬ max capacity 1 ≤ (newer ++ admitted [Happening.pruned now]).length := by
      rw [admitted_pruned, admitted_nil, List.append_nil]
      omega
    rw [or_iff_right hroom, admitted_pruned, admitted_nil, List.append_nil]
    exact hord.size_prune_le_iff he now

-- ---------------------------------------------------------------------------
-- Whole runs
-- ---------------------------------------------------------------------------

/-- The ring is what its history makes of a new one. -/
structure Keeps (capacity : Nat) (maxAge : Option Nat) (r : Ring α) (past : List (Happening α)) : Prop where
  holds : r.Holds capacity
  bound : r.maxAge = maxAge
  ordered : r.Ordered
  suffix : r.entries <:+ admitted past
  evicted : r.evicted ↔ r.size < (admitted past).length
  missing : ∀ {before e after}, past = before ++ .accepted e :: after →
    (r.size ≤ (admitted after).length ↔ Outlived capacity maxAge e after)

variable {past : List (Happening α)}

theorem keeps_of_empty (hr : r.Holds capacity) (hage : r.maxAge = maxAge) (hnone : r.entries = [])
    (hevicted : r.evicted = false) : Keeps capacity maxAge r [] where
  holds := hr
  bound := hage
  ordered := by
    rw [Ordered, hnone]
    exact .nil
  suffix := hnone ▸ List.suffix_refl _
  evicted := by simp [hevicted]
  missing h := by simp at h

theorem Keeps.entries_of_lt (hk : Keeps capacity maxAge r past) {before after : List (Happening α)}
    (hpast : past = before ++ .accepted e :: after) (h : (admitted after).length < r.size) :
    ∃ older, r.entries = older ++ e :: admitted after := by
  have hwhole : e :: admitted after <:+ admitted past := ⟨admitted before, by simp [hpast]⟩
  obtain ⟨older, holder⟩ := List.suffix_of_suffix_length_le hwhole hk.suffix h
  exact ⟨older, holder.symm⟩

theorem Keeps.snoc (hk : Keeps capacity maxAge r past) {h : Happening α} (ha : r.Admits h) :
    Keeps capacity maxAge (r.undergo h) (past ++ [h]) where
  holds := hk.holds.undergo h
  bound := (maxAge_undergo r h).trans hk.bound
  ordered := hk.ordered.undergo h
  suffix := by
    rw [admitted_append]
    exact (entries_undergo_suffix ha).trans (List.suffix_append_self_iff.mpr hk.suffix)
  evicted := by
    have hle := hk.suffix.length_le
    have hle' := (entries_undergo_suffix ha).length_le
    rw [hk.holds.evicted_undergo_iff ha, hk.evicted, admitted_append]
    simp only [size, List.length_append] at hle' ⊢
    omega
  missing := by
    intro before e after hpast
    rcases List.eq_nil_or_concat after with rfl | ⟨after, g, rfl⟩
    · -- the entry is the one just accepted
      obtain ⟨-, hlast⟩ := List.append_inj' hpast rfl
      obtain rfl : h = .accepted e := List.head_eq_of_cons_eq hlast
      have hpos : 0 < (r.push e.time e.value).size := size_push_pos (ha e rfl) hk.ordered
      simp only [not_outlived_nil, undergo, admitted_nil, List.length_nil, iff_false]
      omega
    · rw [List.concat_eq_append, ← List.cons_append, ← List.append_assoc] at hpast
      obtain ⟨hearlier, hlast⟩ := List.append_inj' hpast rfl
      obtain rfl : h = g := List.head_eq_of_cons_eq hlast
      have hgrown := (entries_undergo_suffix ha).length_le
      rw [List.concat_eq_append, outlived_snoc, admitted_append]
      by_cases hlt : (admitted after).length < r.size
      · obtain ⟨older, holder⟩ := hk.entries_of_lt hearlier hlt
        have hthere : ¬ Outlived capacity maxAge e after := fun hout =>
          Nat.not_le_of_lt hlt ((hk.missing hearlier).mpr hout)
        rw [hk.holds.size_undergo_le_iff hk.ordered holder ha, hk.bound]
        simp [hthere]
      · have hout := (hk.missing hearlier).mp (Nat.le_of_not_lt hlt)
        simp only [hout, true_or, iff_true]
        simp only [size, List.length_append] at hgrown hlt ⊢
        omega

theorem Keeps.serve (hk : Keeps capacity maxAge r past) (q : Request α) :
    Keeps capacity maxAge (r.serve q) (r.note past q) := by
  cases q with
  | push t a =>
    by_cases ha : r.accepts t
    · have hadmits : r.Admits (.accepted ⟨t, a⟩) := by
        rintro _ ⟨⟩
        exact ha
      rw [note, if_pos ha]
      exact hk.snoc hadmits
    · rw [note, if_neg ha, Ring.serve, push_refused (by simpa using ha)]
      exact hk
  | prune now =>
    have hadmits : r.Admits (.pruned now) := by
      rintro _ ⟨⟩
    exact hk.snoc hadmits
  | clear => exact keeps_of_empty hk.holds.clear hk.bound rfl rfl

theorem Keeps.history (hk : Keeps capacity maxAge r past) (qs : List (Request α)) :
    Keeps capacity maxAge (qs.foldl Ring.serve r) (r.history past qs) := by
  induction qs generalizing r past with
  | nil => exact hk
  | cons q qs ih => exact ih (hk.serve q)

-- ---------------------------------------------------------------------------
-- The recent entries
-- ---------------------------------------------------------------------------

/-- None of the entries is further than the window from the newest one of the ring. -/
def Within (r : Ring α) (window : Nat) (es : List (Stamped α)) : Prop :=
  ∀ e ∈ es, ∀ last ∈ r.newest?, last.time - e.time ≤ window

theorem filter_suffix {p : α → Bool} {xs : List α} (hp : xs.Pairwise fun x y => p x → p y) :
    xs.filter p <:+ xs := by
  induction xs with
  | nil => exact List.suffix_refl _
  | cons x xs ih =>
    rw [List.pairwise_cons] at hp
    by_cases hx : p x
    · have hall : (x :: xs).filter p = x :: xs := by
        refine List.filter_eq_self.mpr fun y hy => ?_
        rcases List.mem_cons.mp hy with rfl | hy
        · exact hx
        · exact hp.1 y hy hx
      exact ⟨[], hall⟩
    · rw [List.filter_cons_of_neg hx]
      exact (ih hp.2).trans (List.suffix_cons x xs)

theorem recent_eq_filter {last : Stamped α} (hlast : last ∈ r.newest?) (window : Nat) :
    r.recent window = r.entries.filter fun e => last.time - e.time ≤ window := by
  rw [recent, Option.mem_def.mp hlast]

theorem within_recent (r : Ring α) (window : Nat) : r.Within window (r.recent window) := by
  intro e he last hlast
  rw [recent_eq_filter hlast] at he
  exact of_decide_eq_true (List.mem_filter.mp he).2

theorem Ordered.recent_suffix (hr : r.Ordered) (window : Nat) : r.recent window <:+ r.entries := by
  unfold recent
  split
  · exact List.nil_suffix
  · refine filter_suffix (hr.imp ?_)
    intro x y hxy hx
    have hle := of_decide_eq_true hx
    exact decide_eq_true (by omega)

theorem suffix_recent {es : List (Stamped α)} (hes : es <:+ r.entries) (hw : r.Within window es) :
    es <:+ r.recent window := by
  cases hlast : r.newest? with
  | none =>
    have hnone : r.entries = [] := List.getLast?_eq_none_iff.mp hlast
    rw [hnone] at hes
    rw [List.eq_nil_of_suffix_nil hes]
    exact List.nil_suffix
  | some last =>
    rw [recent_eq_filter hlast]
    have hself : es.filter (fun e => decide (last.time - e.time ≤ window)) = es :=
      List.filter_eq_self.mpr fun e he => decide_eq_true (hw e he last hlast)
    rw [← hself]
    exact hes.filter _

-- ---------------------------------------------------------------------------
-- The result
-- ---------------------------------------------------------------------------

structure Faithful (capacity : Nat) (maxAge : Option Nat) (r : Ring α) (past : List (Happening α)) :
    Prop where
  suffix : r.entries <:+ admitted past
  ordered : r.entries.Pairwise (·.time ≤ ·.time)
  size_le : r.size ≤ max capacity 1
  missing : ∀ before e after, past = before ++ .accepted e :: after →
    (¬ e :: admitted after <:+ r.entries ↔ Outlived capacity maxAge e after)
  refuses : ∀ t a, (r.accepts t = false ↔ ∃ e ∈ r.newest?, t < e.time) ∧
    (r.accepts t = false → r.push t a = r)
  evicted : r.evicted = true ↔ r.size < (admitted past).length
  recent : ∀ window, r.recent window <:+ r.entries ∧ r.Within window (r.recent window) ∧
    ∀ es, es <:+ r.entries → r.Within window es → es <:+ r.recent window

theorem Keeps.missing_iff (hk : Keeps capacity maxAge r past) {before after : List (Happening α)}
    (hpast : past = before ++ .accepted e :: after) :
    ¬ e :: admitted after <:+ r.entries ↔ Outlived capacity maxAge e after := by
  rw [← hk.missing hpast, ← Nat.not_lt, not_congr]
  constructor
  · exact fun h => h.length_le
  · intro h
    obtain ⟨older, holder⟩ := hk.entries_of_lt hpast h
    exact ⟨older, holder.symm⟩

/-- Whatever is asked of a new ring, it is faithful to its history since it was last cleared. -/
theorem faithful_to_history (capacity : Nat) (maxAge : Option Nat) (requests : List (Request α)) :
    Faithful capacity maxAge (requests.foldl serve (empty capacity maxAge))
      ((empty capacity maxAge).history [] requests) := by
  have hk : Keeps capacity maxAge _ _ :=
    (keeps_of_empty (holds_empty capacity maxAge) rfl rfl rfl).history requests
  exact {
    suffix := hk.suffix
    ordered := hk.ordered
    size_le := hk.holds.size_le
    missing := fun _ _ _ hpast => hk.missing_iff hpast
    refuses := fun _ _ => ⟨refuses_iff, push_refused⟩
    evicted := hk.evicted
    recent := fun window =>
      ⟨hk.ordered.recent_suffix window, within_recent _ window, fun _ hes hw => suffix_recent hes hw⟩ }

/-- The first entry is too old when the fourth comes, the second has to make room for the fifth, and the
third is refused. -/
example : let requests : List (Request Nat) :=
      [.push 10 1, .push 18 2, .push 17 3, .push 21 4, .push 21 5, .push 22 6]
    (requests.foldl serve (empty 3 (some 10))).values = [4, 5, 6] ∧
      (admitted ((empty 3 (some 10)).history [] requests)).map (·.value) = [1, 2, 4, 5, 6] := by
  decide

end Vigil.Ring
