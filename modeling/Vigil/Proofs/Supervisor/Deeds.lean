import Vigil.Watch.Supervisor

/-!
# What calls do to the register

A track and a wait are deeds: each touches what is filed under one identity. From the deeds one can tell
what became of every workload that was tracked, `kept_iff`: it was waited for, or displaced by a later one of
its identity, or it is kept. The register files just those that are kept, `Keeps`.
-/

namespace Vigil

-- ---------------------------------------------------------------------------
-- Deeds
-- ---------------------------------------------------------------------------

inductive Deed where
  | tracked (id : ProcessId)
  | waited (id : ProcessId)
  deriving DecidableEq

namespace Deed

def id : Deed → ProcessId
  | tracked id | waited id => id

def tracked? : Deed → Option ProcessId
  | tracked id => some id
  | waited _ => none

def of? : SupervisorCall × SupervisorAnswer → Option Deed
  | (.track .., .tracked id) => some (tracked id)
  | (.wait id, .outcome _) => some (waited id)
  | _ => none

end Deed

def deedsOf (history : List (SupervisorCall × SupervisorAnswer)) : List Deed :=
  history.filterMap Deed.of?

/-- The identities of the workloads that were tracked. A workload's place is its place in this list. -/
def trackedIds (ds : List Deed) : List ProcessId := ds.filterMap Deed.tracked?

def TrackedAt (ds : List Deed) (p : Nat) (id : ProcessId) (since : List Deed) : Prop :=
  ∃ before, ds = before ++ .tracked id :: since ∧ (trackedIds before).length = p

def Kept (ds : List Deed) (id : ProcessId) (p : Nat) : Prop :=
  ∃ since, TrackedAt ds p id since ∧ ∀ d ∈ since, d.id ≠ id

/-- The first thing done under the identity of the workload since it was tracked is a wait. -/
def WaitedFor (ds : List Deed) (p : Nat) : Prop :=
  ∃ id between rest, TrackedAt ds p id (between ++ .waited id :: rest) ∧ ∀ d ∈ between, d.id ≠ id

/-- The first thing done under the identity of the workload since it was tracked is to track another. -/
def Displaced (ds : List Deed) (p : Nat) : Prop :=
  ∃ id between rest, TrackedAt ds p id (between ++ .tracked id :: rest) ∧ ∀ d ∈ between, d.id ≠ id

variable {ds : List Deed} {d : Deed} {id id' : ProcessId} {p p' : Nat} {since since' : List Deed}

@[simp] theorem trackedIds_nil : trackedIds [] = [] := rfl

@[simp] theorem trackedIds_tracked (id : ProcessId) (ds : List Deed) :
    trackedIds (.tracked id :: ds) = id :: trackedIds ds := rfl

@[simp] theorem trackedIds_waited (id : ProcessId) (ds : List Deed) :
    trackedIds (.waited id :: ds) = trackedIds ds := rfl

@[simp] theorem trackedIds_append (ds ds' : List Deed) :
    trackedIds (ds ++ ds') = trackedIds ds ++ trackedIds ds' := List.filterMap_append

theorem exists_trackedAt (hp : p < (trackedIds ds).length) : ∃ id since, TrackedAt ds p id since := by
  induction ds generalizing p with
  | nil => simp at hp
  | cons d ds ih =>
    cases d with
    | waited id' =>
      obtain ⟨id, since, before, rfl, hbefore⟩ := ih (by simpa using hp)
      exact ⟨id, since, .waited id' :: before, rfl, by simpa using hbefore⟩
    | tracked id' =>
      cases p with
      | zero => exact ⟨id', ds, [], rfl, rfl⟩
      | succ p =>
        obtain ⟨id, since, before, rfl, hbefore⟩ := ih (by simpa using hp)
        exact ⟨id, since, .tracked id' :: before, rfl, by simpa using hbefore⟩

theorem TrackedAt.getElem? (h : TrackedAt ds p id since) : (trackedIds ds)[p]? = some id := by
  obtain ⟨before, rfl, rfl⟩ := h
  simp

theorem TrackedAt.lt (h : TrackedAt ds p id since) : p < (trackedIds ds).length :=
  (List.getElem?_eq_some_iff.mp h.getElem?).1

/-- Two tracks are the same one, or one is among what was done since the other. -/
theorem TrackedAt.compare (h : TrackedAt ds p id since) (h' : TrackedAt ds p' id' since') :
    p = p' ∧ since = since' ∨ p < p' ∧ .tracked id' ∈ since ∨ p' < p ∧ .tracked id ∈ since' := by
  obtain ⟨before, rfl, rfl⟩ := h
  obtain ⟨before', he, rfl⟩ := h'
  rcases List.append_eq_append_iff.mp he with ⟨as, rfl, has⟩ | ⟨as, rfl, has⟩
  · rcases List.cons_eq_append_iff.mp has with ⟨rfl, hsame⟩ | ⟨as, rfl, rfl⟩
    · exact .inl ⟨by simp, (List.cons.inj hsame).2.symm⟩
    · exact .inr (.inl ⟨by simp, by simp⟩)
  · rcases List.cons_eq_append_iff.mp has with ⟨rfl, hsame⟩ | ⟨as, rfl, rfl⟩
    · exact .inl ⟨by simp, (List.cons.inj hsame).2⟩
    · exact .inr (.inr ⟨by simp, by simp⟩)

theorem TrackedAt.unique (h : TrackedAt ds p id since) (h' : TrackedAt ds p id' since') :
    id = id' ∧ since = since' := by
  refine ⟨Option.some.inj (h.getElem?.symm.trans h'.getElem?), ?_⟩
  rcases h.compare h' with ⟨-, hsame⟩ | ⟨hlt, -⟩ | ⟨hlt, -⟩
  · exact hsame
  · exact absurd hlt (Nat.lt_irrefl p)
  · exact absurd hlt (Nat.lt_irrefl p)

theorem Kept.unique (h : Kept ds id p) (h' : Kept ds id p') : p = p' := by
  obtain ⟨since, hat, hsince⟩ := h
  obtain ⟨since', hat', hsince'⟩ := h'
  rcases hat.compare hat' with ⟨hp, -⟩ | ⟨-, hmem⟩ | ⟨-, hmem⟩
  · exact hp
  · exact absurd rfl (hsince _ hmem)
  · exact absurd rfl (hsince' _ hmem)

theorem kept_snoc : Kept (ds ++ [d]) id p ↔
    d = .tracked id ∧ p = (trackedIds ds).length ∨ d.id ≠ id ∧ Kept ds id p := by
  constructor
  · rintro ⟨since, ⟨before, he, rfl⟩, hsince⟩
    rcases List.eq_nil_or_concat since with rfl | ⟨since, d', rfl⟩
    · obtain ⟨rfl, hd⟩ := List.append_inj' he rfl
      exact .inl ⟨List.singleton_inj.mp hd, rfl⟩
    · obtain ⟨rfl, hd⟩ : ds = before ++ .tracked id :: since ∧ [d] = [d'] :=
        List.append_inj' (by simpa using he) rfl
      obtain rfl := List.singleton_inj.mp hd
      exact .inr ⟨hsince d (by simp), since, ⟨before, rfl, rfl⟩, fun c hc => hsince c (by simp [hc])⟩
  · rintro (⟨rfl, rfl⟩ | ⟨hd, since, ⟨before, rfl, rfl⟩, hsince⟩)
    · exact ⟨[], ⟨ds, rfl, rfl⟩, by simp⟩
    · refine ⟨since ++ [d], ⟨before, by simp, rfl⟩, ?_⟩
      intro c hc
      rcases List.mem_append.mp hc with hc | hc
      · exact hsince c hc
      · rwa [List.mem_singleton.mp hc]

theorem kept_iff :
    (∃ id, Kept ds id p) ↔ p < (trackedIds ds).length ∧ ¬ WaitedFor ds p ∧ ¬ Displaced ds p := by
  constructor
  · rintro ⟨id, since, hat, hsince⟩
    refine ⟨hat.lt, ?_, ?_⟩
    · rintro ⟨id', between, rest, hat', -⟩
      obtain ⟨rfl, rfl⟩ := hat.unique hat'
      exact hsince (.waited id) (by simp) rfl
    · rintro ⟨id', between, rest, hat', -⟩
      obtain ⟨rfl, rfl⟩ := hat.unique hat'
      exact hsince (.tracked id) (by simp) rfl
  · rintro ⟨hp, hwaited, hdisplaced⟩
    obtain ⟨id, since, hat⟩ := exists_trackedAt hp
    -- What was done first under its identity decides.
    cases hfirst : since.find? (·.id = id) with
    | none => exact ⟨id, since, hat, by simpa using hfirst⟩
    | some d =>
      obtain ⟨hd, between, rest, rfl, hbetween⟩ := List.find?_eq_some_iff_append.mp hfirst
      obtain rfl : d.id = id := by simpa using hd
      have hno : ∀ c ∈ between, c.id ≠ d.id := fun c hc => by simpa using hbetween c hc
      cases d with
      | tracked => exact absurd ⟨_, between, rest, hat, hno⟩ hdisplaced
      | waited => exact absurd ⟨_, between, rest, hat, hno⟩ hwaited

theorem not_displaced (h : (trackedIds ds).Nodup) : ¬ Displaced ds p := by
  rintro ⟨id, between, rest, ⟨before, rfl, -⟩, -⟩
  simp [List.nodup_append] at h

-- ---------------------------------------------------------------------------
-- The register
-- ---------------------------------------------------------------------------

/-- The register files the workloads that are kept, each at its place. -/
structure Keeps (r : Register Nat) (ds : List Deed) : Prop where
  mem_iff : ∀ id p, (id, p) ∈ r.entries ↔ Kept ds id p
  nodup : r.handles.Nodup

variable {r : Register Nat}

theorem mem_insert : (id', p) ∈ (r.insert id p').entries ↔
    id' ≠ id ∧ (id', p) ∈ r.entries ∨ id' = id ∧ p = p' := by
  simp [Register.insert, and_comm]

theorem mem_erase : (id', p) ∈ (r.erase id).entries ↔ id' ≠ id ∧ (id', p) ∈ r.entries := by
  simp [Register.erase, and_comm]

namespace Keeps

theorem mem_handles (h : Keeps r ds) : p ∈ r.handles ↔ ∃ id, Kept ds id p := by
  simp only [Register.handles, List.mem_map, Prod.exists, exists_eq_right, h.mem_iff]

theorem lt (h : Keeps r ds) (hp : p ∈ r.handles) : p < (trackedIds ds).length :=
  (kept_iff.mp (h.mem_handles.mp hp)).1

theorem kept (h : Keeps r ds) (hfind : r.find? id = some p) : Kept ds id p := by
  obtain ⟨before, after, he, -⟩ := List.lookup_eq_some_iff.mp hfind
  exact (h.mem_iff id p).mp (by simp [he])

theorem not_kept (h : Keeps r ds) (hfind : r.find? id = none) : ¬ Kept ds id p := by
  intro hkept
  have hne := List.lookup_eq_none_iff.mp hfind _ ((h.mem_iff id p).mpr hkept)
  simp at hne

theorem find?_eq (h : Keeps r ds) (hkept : Kept ds id p) : r.find? id = some p := by
  cases hfind : r.find? id with
  | none => exact absurd hkept (h.not_kept hfind)
  | some q => rw [hkept.unique (h.kept hfind)]

theorem track (h : Keeps r ds) (id : ProcessId) :
    Keeps (r.insert id (trackedIds ds).length) (ds ++ [.tracked id]) where
  mem_iff := by
    intro id' p
    rw [kept_snoc, mem_insert, h.mem_iff]
    constructor
    · rintro (⟨hne, hkept⟩ | ⟨rfl, rfl⟩)
      · exact .inr ⟨Ne.symm hne, hkept⟩
      · exact .inl ⟨rfl, rfl⟩
    · rintro (⟨he, rfl⟩ | ⟨hne, hkept⟩)
      · cases he
        exact .inr ⟨rfl, rfl⟩
      · exact .inl ⟨Ne.symm hne, hkept⟩
  nodup := by
    have hold : ((r.entries.filter fun e => e.1 ≠ id).map (·.2)).Sublist r.handles :=
      List.filter_sublist.map _
    have hfresh : (trackedIds ds).length ∉ r.handles := fun hmem => Nat.lt_irrefl _ (h.lt hmem)
    simp only [Register.handles, Register.insert, List.map_append, List.nodup_append]
    refine ⟨hold.nodup h.nodup, by simp, ?_⟩
    intro p hp q hq
    obtain rfl : q = _ := by simpa using hq
    rintro rfl
    exact hfresh (hold.subset hp)

theorem wait (h : Keeps r ds) (id : ProcessId) : Keeps (r.erase id) (ds ++ [.waited id]) where
  mem_iff := by
    intro id' p
    rw [kept_snoc, mem_erase, h.mem_iff]
    constructor
    · rintro ⟨hne, hkept⟩
      exact .inr ⟨Ne.symm hne, hkept⟩
    · rintro (⟨he, -⟩ | ⟨hne, hkept⟩)
      · cases he
      · exact ⟨Ne.symm hne, hkept⟩
  nodup := (List.filter_sublist.map _).nodup h.nodup

theorem wait_absent (h : Keeps r ds) (hfind : r.find? id = none) : Keeps r (ds ++ [.waited id]) where
  mem_iff := by
    intro id' p
    rw [kept_snoc, h.mem_iff]
    constructor
    · intro hkept
      refine .inr ⟨?_, hkept⟩
      rintro rfl
      exact h.not_kept hfind hkept
    · rintro (⟨he, -⟩ | ⟨-, hkept⟩)
      · cases he
      · exact hkept
  nodup := h.nodup

end Keeps

end Vigil
