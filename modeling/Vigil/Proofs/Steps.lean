/-!
# Steps of a system

A system takes one event after another. Each leads to a next state and yields an output, or breaks the
system. `steps` lists what a run goes through, up to the event that breaks it; `Path` relates such a list
to the states at its two ends. `Path.last_entry` finds the step since which a property has held, and
`Path.stays_or_leaves` the step with which it first ends.
-/

namespace Vigil

-- ---------------------------------------------------------------------------
-- Results
-- ---------------------------------------------------------------------------

theorem map_ok {x : Except χ α} {f : α → β} : x.map f = .ok b ↔ ∃ a, x = .ok a ∧ f a = b := by
  cases x <;> simp [Except.map]

theorem map_error {x : Except χ α} {f : α → β} : x.map f = .error e ↔ x = .error e := by
  cases x <;> simp [Except.map]

theorem ok_of_toOption {x : Except χ α} (h : x.toOption = some a) : x = .ok a := by
  cases x with
  | error => cases h
  | ok => cases h; rfl

theorem exists_mem_snoc {P : α → Prop} {as : List α} :
    (∃ b ∈ as ++ [a], P b) ↔ (∃ b ∈ as, P b) ∨ P a := by
  simp [or_and_right, exists_or]

-- ---------------------------------------------------------------------------
-- Steps
-- ---------------------------------------------------------------------------

structure Step (σ ε ω : Type) where
  before : σ
  event : ε
  output : ω
  after : σ

variable {σ ε ω χ : Type} {next : σ → ε → Except χ (σ × ω)}

/-- What a run over events goes through, up to the event that breaks the system. -/
def steps (next : σ → ε → Except χ (σ × ω)) : σ → List ε → List (Step σ ε ω)
  | _, [] => []
  | a, e :: es =>
    match next a e with
    | .ok (b, out) => ⟨a, e, out, b⟩ :: steps next b es
    | .error _ => []

def run (next : σ → ε → Except χ (σ × ω)) : σ → List ε → Except χ σ
  | a, [] => .ok a
  | a, e :: es =>
    match next a e with
    | .ok (b, _) => run next b es
    | .error x => .error x

def Step.Of (next : σ → ε → Except χ (σ × ω)) (t : Step σ ε ω) : Prop :=
  next t.before t.event = .ok (t.after, t.output)

/-- The steps lead from one state to another. A path grows at its end, since what holds of a run depends
on all that went before. -/
inductive Path (next : σ → ε → Except χ (σ × ω)) (a : σ) : List (Step σ ε ω) → σ → Prop
  | nil : Path next a [] a
  | snoc {ts t} : Path next a ts t.before → t.Of next → Path next a (ts ++ [t]) t.after

theorem Path.cons (ht : t.Of next) (hp : Path next t.after ts b) :
    Path next t.before (t :: ts) b := by
  induction hp with
  | nil => simpa using Path.nil.snoc ht
  | snoc _ hu ih => exact ih.snoc hu

theorem steps_eq_cons (h : steps next a es = t :: post) :
    t.before = a ∧ t.Of next ∧ ∃ es', steps next t.after es' = post := by
  cases es with
  | nil => simp [steps] at h
  | cons e es =>
    simp only [steps] at h
    split at h
    · rename_i b out hs
      cases h
      exact ⟨rfl, hs, es, rfl⟩
    · cases h

theorem steps_eq_append (h : steps next a es = pre ++ rest) :
    ∃ b es', Path next a pre b ∧ steps next b es' = rest := by
  induction pre generalizing a es with
  | nil => exact ⟨a, es, .nil, h⟩
  | cons t pre ih =>
    obtain ⟨rfl, ht, es', h'⟩ := steps_eq_cons h
    obtain ⟨b, es'', hp, hr⟩ := ih h'
    exact ⟨b, es'', hp.cons ht, hr⟩

/-- Every step of a run is reached by the steps before it, and those after it go on from its end. -/
theorem steps_split (h : steps next a es = pre ++ t :: post) :
    Path next a pre t.before ∧ t.Of next ∧ ∃ es', steps next t.after es' = post := by
  obtain ⟨b, es', hp, hr⟩ := steps_eq_append h
  obtain ⟨rfl, ht, hpost⟩ := steps_eq_cons hr
  exact ⟨hp, ht, hpost⟩

theorem of_mem_steps (h : t ∈ steps next a es) : t.Of next := by
  obtain ⟨pre, post, hs⟩ := List.append_of_mem h
  exact (steps_split hs).2.1

theorem event_mem_of_mem_steps (h : t ∈ steps next a es) : t.event ∈ es := by
  induction es generalizing a with
  | nil => simp [steps] at h
  | cons e es ih =>
    simp only [steps] at h
    split at h
    · rcases List.mem_cons.mp h with rfl | h
      · exact List.mem_cons_self
      · exact List.mem_cons_of_mem _ (ih h)
    · cases h

theorem steps_cons (h : next a e = .ok (b, out)) :
    steps next a (e :: es) = ⟨a, e, out, b⟩ :: steps next b es := by
  simp [steps, h]

theorem run_cons_ok :
    run next a (e :: es) = .ok c ↔ ∃ b out, next a e = .ok (b, out) ∧ run next b es = .ok c := by
  rw [run]
  rcases next a e with x | ⟨b, out⟩
  · simp
  · simp

theorem run_append_ok :
    run next a (es ++ fs) = .ok c ↔ ∃ b, run next a es = .ok b ∧ run next b fs = .ok c := by
  induction es generalizing a with
  | nil => simp [run]
  | cons e es ih =>
    simp only [List.cons_append, run_cons_ok, ih]
    constructor
    · rintro ⟨b, out, he, d, hes, hfs⟩
      exact ⟨d, ⟨b, out, he, hes⟩, hfs⟩
    · rintro ⟨d, ⟨b, out, he, hes⟩, hfs⟩
      exact ⟨b, out, he, d, hes, hfs⟩

theorem path_of_run (h : run next a es = .ok b) : Path next a (steps next a es) b := by
  induction es generalizing a with
  | nil =>
    cases h
    exact .nil
  | cons e es ih =>
    obtain ⟨c, out, he, hes⟩ := run_cons_ok.mp h
    rw [steps_cons he]
    exact Path.cons (t := ⟨a, e, out, c⟩) he (ih hes)

theorem steps_append (h : run next a es = .ok b) :
    steps next a (es ++ fs) = steps next a es ++ steps next b fs := by
  induction es generalizing a with
  | nil =>
    cases h
    rfl
  | cons e es ih =>
    obtain ⟨c, out, he, hes⟩ := run_cons_ok.mp h
    rw [List.cons_append, steps_cons he, steps_cons he, ih hes]
    rfl

theorem events_of_run (h : run next a es = .ok b) : (steps next a es).map (·.event) = es := by
  induction es generalizing a with
  | nil => rfl
  | cons e es ih =>
    obtain ⟨c, out, he, hes⟩ := run_cons_ok.mp h
    rw [steps_cons he, List.map_cons, ih hes]

theorem run_append (h : run next a es = .ok b) : run next a (es ++ fs) = run next b fs := by
  induction es generalizing a with
  | nil =>
    cases h
    rfl
  | cons e es ih =>
    obtain ⟨c, out, he, hes⟩ := run_cons_ok.mp h
    rw [List.cons_append, run, he]
    exact ih hes

theorem run_error_iff : run next a es = .error x ↔
    ∃ pre e post b, es = pre ++ e :: post ∧ run next a pre = .ok b ∧ next b e = .error x := by
  constructor
  · intro h
    induction es generalizing a with
    | nil => cases h
    | cons e es ih =>
      unfold run at h
      split at h
      · rename_i b out he
        obtain ⟨pre, f, post, c, rfl, hpre, hf⟩ := ih h
        exact ⟨e :: pre, f, post, c, rfl, run_cons_ok.mpr ⟨b, out, he, hpre⟩, hf⟩
      · rename_i he
        cases h
        exact ⟨[], e, es, a, rfl, rfl, he⟩
  · rintro ⟨pre, e, post, b, rfl, hpre, he⟩
    rw [run_append hpre, run, he]

theorem breaks_of_run (h : run next a es = .error x) : ∃ b, ∃ e ∈ es, next b e = .error x := by
  obtain ⟨pre, e, post, b, rfl, -, he⟩ := run_error_iff.mp h
  exact ⟨b, e, by simp, he⟩

namespace Path

theorem append (hp : Path next a ts b) (hq : Path next b us c) : Path next a (ts ++ us) c := by
  induction hq with
  | nil => simpa using hp
  | @snoc us t _ ht ih => simpa using ih.snoc ht

theorem preserves {P : σ → Prop} (hp : Path next a ts b) (ha : P a)
    (hstep : ∀ t ∈ ts, t.Of next → P t.before → P t.after) : P b := by
  induction hp with
  | nil => exact ha
  | @snoc ts t _ ht ih =>
    have hbefore := ih fun u hu => hstep u (List.mem_append_left _ hu)
    exact hstep t (by simp) ht hbefore

/-- What holds at the end and not at the beginning was entered by some step and has held since. -/
theorem last_entry {P : σ → Prop} (hp : Path next a ts b) (ha : ¬ P a) (hb : P b) :
    ∃ pre t since, ts = pre ++ t :: since ∧ t.Of next ∧ ¬ P t.before ∧ P t.after ∧
      ∀ u ∈ since, P u.before := by
  induction hp with
  | nil => exact absurd hb ha
  | @snoc ts t _ ht ih =>
    by_cases hbefore : P t.before
    · obtain ⟨pre, u, since, rfl, hu, hn, hafter, hsince⟩ := ih hbefore
      refine ⟨pre, u, since ++ [t], by simp, hu, hn, hafter, ?_⟩
      intro v hv
      rcases List.mem_append.mp hv with hv | hv
      · exact hsince v hv
      · obtain rfl := List.mem_singleton.mp hv
        exact hbefore
    · exact ⟨ts, t, [], rfl, ht, hbefore, hb, by simp⟩

/-- What holds at the beginning holds all along, or there is a step with which it first ends. -/
theorem stays_or_leaves {P : σ → Prop} (hp : Path next a ts b) (ha : P a) :
    (P b ∧ ∀ u ∈ ts, P u.before) ∨
      ∃ pre t post, ts = pre ++ t :: post ∧ t.Of next ∧ P t.before ∧ ¬ P t.after ∧
        ∀ u ∈ pre, P u.before := by
  induction hp with
  | nil => exact .inl ⟨ha, by simp⟩
  | @snoc ts t _ ht ih =>
    rcases ih with ⟨hbefore, hall⟩ | ⟨pre, u, post, rfl, hu, hin, hout, hall⟩
    · by_cases hafter : P t.after
      · refine .inl ⟨hafter, ?_⟩
        intro v hv
        rcases List.mem_append.mp hv with hv | hv
        · exact hall v hv
        · obtain rfl := List.mem_singleton.mp hv
          exact hbefore
      · exact .inr ⟨ts, t, [], rfl, ht, hbefore, hafter, hall⟩
    · exact .inr ⟨pre, u, post ++ [t], by simp, hu, hin, hout, hall⟩

end Path

end Vigil
