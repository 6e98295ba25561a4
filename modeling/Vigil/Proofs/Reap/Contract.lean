import Vigil.Proofs.Reap.Turns
import Vigil.Proofs.Steps

/-!
# What a reap does and returns

A reap takes its turns, each at a moment of its own, until it is over. `Reap.Underway` says where it
stands in between and `Reap.Ended` how it can have ended: one turn leads from either to the next, and so
does the whole reap. `Reap.keeps_contract`: whatever the looks at the group answer and whenever the grace
period is cut short, the result, the signals sent and the looks taken fit together; and as long as time
passes, there is a result.
-/

namespace Vigil.Reap

variable {s : Settings.Reaping} {pgid : Int} {mode : ReapMode} {stage : Stage} {m : Moment}

-- ---------------------------------------------------------------------------
-- Whole reaps
-- ---------------------------------------------------------------------------

abbrev Result := ReapOutcome ⊕ ReapFailure

def Turn.result? : Turn → Option Result
  | .done outcome => some (.inl outcome)
  | .failed failure => some (.inr failure)
  | .send .. | .pause .. => none

def Turn.signal? : Turn → Option Signal
  | .send _ signal _ => some signal
  | _ => none

def advance (s : Settings.Reaping) (pgid : Int) (mode : ReapMode) :
    Option Stage → Moment → Except Unit (Option Stage × Turn)
  | some stage, m =>
    let t := turn s pgid mode stage m.now m.group m.escalated
    .ok (t.next?, t)
  | none, _ => .error ()

abbrev TurnStep := Step (Option Stage) Moment Turn

def probe? (t : TurnStep) : Option GroupProbe :=
  if t.before.any Stage.looks then some t.event.group else none

def probes (ts : List TurnStep) : List GroupProbe := ts.filterMap probe?

def signals (ts : List TurnStep) : List Signal := ts.filterMap (·.output.signal?)

def result? (ts : List TurnStep) : Option Result := ts.findSome? (·.output.result?)

def turns (s : Settings.Reaping) (pgid : Int) (mode : ReapMode) (moment : Nat → Moment) (k : Nat) :
    List TurnStep :=
  steps (advance s pgid mode) (some .opening) ((List.range k).map moment)

variable {t : TurnStep} {ts : List TurnStep}

theorem probes_snoc : probes (ts ++ [t]) = probes ts ++ (probe? t).toList := by
  cases h : probe? t <;> simp [probes, h]

theorem signals_snoc : signals (ts ++ [t]) = signals ts ++ t.output.signal?.toList := by
  cases h : t.output.signal? <;> simp [signals, h]

theorem result?_snoc (h : result? ts = none) : result? (ts ++ [t]) = t.output.result? := by
  unfold result? at h ⊢
  rw [List.findSome?_append, h]
  cases h' : t.output.result? <;> simp [h']

theorem probe?_of_looks (hb : t.before = some stage) (hl : stage.looks = true) :
    probe? t = some t.event.group := by
  simp [probe?, hb, hl]

theorem step_took (ht : t.Of (advance s pgid mode)) :
    ∃ stage, t.before = some stage ∧ Took s pgid mode t.event stage t.output ∧
      t.after = t.output.next? := by
  obtain ⟨before, m, out, after⟩ := t
  cases before with
  | none => cases ht
  | some stage =>
    obtain ⟨rfl, rfl⟩ : (turn s pgid mode stage m.now m.group m.escalated).next? = after ∧
        turn s pgid mode stage m.now m.group m.escalated = out := by
      simpa [Step.Of, advance] using ht
    exact ⟨stage, rfl, took s pgid mode stage m, rfl⟩

-- ---------------------------------------------------------------------------
-- Looks at the group
-- ---------------------------------------------------------------------------

def FindsNobody (p : GroupProbe) : Prop := p = .ok [] ∨ p = .error .gone

theorem liveMembers_eq_nil {p : GroupProbe} : liveMembers pgid p = [] ↔ FindsNobody p := by
  unfold FindsNobody
  cases p with
  | ok members => simp [liveMembers]
  | error e => cases e <;> simp [liveMembers]

/-- Who is taken to be alive after a look that found somebody: those it named, or the group's leader if
it could not be taken. -/
inductive Names (pgid : Int) : GroupProbe → List Int → Prop
  | read {members} : Names pgid (.ok members) members
  | unread {why} : Names pgid (.error (.unavailable why)) [pgid]

theorem names_liveMembers {p : GroupProbe} (hp : ¬ FindsNobody p) :
    Names pgid p (liveMembers pgid p) := by
  cases p with
  | ok members => exact .read
  | error e =>
    cases e with
    | gone => exact absurd (.inr rfl) hp
    | unavailable why => exact .unread

-- ---------------------------------------------------------------------------
-- A reap under way
-- ---------------------------------------------------------------------------

/-- What is sent before the hard signals, if the first attempt is made at this moment. -/
def courtesy (mode : ReapMode) (m : Moment) : List Signal :=
  if mode = .graceful ∧ m.escalated = false then [.terminate] else []

def Stage.struck : Stage → Nat
  | .opening | .grace _ => 0
  | .strike attempt => attempt - 1
  | .kill attempt _ => attempt
  | .lastLook attempts => attempts

/-- The stage comes after the opening, its attempt lies within the limit, and the last look comes after
the last attempt. -/
def Stage.Within (limit : Nat) : Stage → Prop
  | .opening => False
  | .grace _ => True
  | .strike attempt | .kill attempt _ => 1 ≤ attempt ∧ attempt ≤ limit
  | .lastLook attempts => attempts = limit

/-- Where a reap stands after some turns without a result. `soft` is what it sends before the hard
signals. -/
structure Underway (s : Settings.Reaping) (soft : List Signal) (ts : List TurnStep) (stage : Stage) :
    Prop where
  within : stage.Within s.maxAttempts
  begun : probes ts ≠ []
  alive : ∀ p ∈ probes ts, ¬ FindsNobody p
  sent : signals ts = soft ++ List.replicate stage.struck .kill
  polite : ∀ deadline, stage = .grace deadline → soft = [.terminate]
  unfinished : result? ts = none

/-- How a reap can have ended: what its looks answered, what it sent and what it returned. -/
inductive Ended (s : Settings.Reaping) (pgid : Int) (soft : List Signal) :
    List GroupProbe → List Signal → Result → Prop
  | vacant {p} : FindsNobody p → Ended s pgid soft [p] [] (.inl .alreadyReaped)
  | left {ps p} : ps ≠ [] → (∀ q ∈ ps, ¬ FindsNobody q) → FindsNobody p → soft = [.terminate] →
      Ended s pgid soft (ps ++ [p]) soft (.inl (.terminated false 1))
  | fell {ps p k} : ps ≠ [] → (∀ q ∈ ps, ¬ FindsNobody q) → FindsNobody p → 1 ≤ k →
      k ≤ s.maxAttempts →
      Ended s pgid soft (ps ++ [p]) (soft ++ List.replicate k .kill) (.inl (.terminated true k))
  | survived {ps p} : (∀ q ∈ ps, ¬ FindsNobody q) → ¬ FindsNobody p →
      Ended s pgid soft (ps ++ [p]) (soft ++ List.replicate s.maxAttempts .kill)
        (.inr ⟨pgid, liveMembers pgid p, s.maxAttempts⟩)

inductive Standing (s : Settings.Reaping) (pgid : Int) (soft : List Signal) (ts : List TurnStep) :
    Option Stage → Prop
  | opening : ts = [] → Standing s pgid soft ts (some .opening)
  | underway {reached} : Underway s soft ts reached → Standing s pgid soft ts (some reached)
  | ended {r} : result? ts = some r → Ended s pgid soft (probes ts) (signals ts) r →
      Standing s pgid soft ts none

section Turn

variable {soft : List Signal} {next : Stage} {p : GroupProbe}

theorem Underway.looked (hu : Underway s soft ts stage) (hp : probe? t = some p)
    (halive : ¬ FindsNobody p) (hw : next.Within s.maxAttempts)
    (hs : signals ts ++ t.output.signal?.toList = soft ++ List.replicate next.struck .kill)
    (hg : ∀ deadline, next = .grace deadline → soft = [.terminate])
    (hr : t.output.result? = none) : Underway s soft (ts ++ [t]) next where
  within := hw
  begun := by simp [probes_snoc, hp]
  alive := by
    intro q hq
    rw [probes_snoc, hp] at hq
    rcases List.mem_append.mp hq with hq | hq
    · exact hu.alive q hq
    · obtain rfl : q = p := by simpa using hq
      exact halive
  sent := by rw [signals_snoc, hs]
  polite := hg
  unfinished := by rw [result?_snoc hu.unfinished, hr]

theorem Underway.closed {r : Result} (hu : Underway s soft ts stage) (hp : probe? t = some p)
    (hr : t.output.result? = some r) (hs : t.output.signal? = none)
    (he : Ended s pgid soft (probes ts ++ [p]) (soft ++ List.replicate stage.struck .kill) r) :
    Standing s pgid soft (ts ++ [t]) none := by
  refine .ended ((result?_snoc hu.unfinished).trans hr) ?_
  rw [probes_snoc, signals_snoc, hp, hs, hu.sent]
  simpa using he

theorem afterAttempt_within {attempt : Nat} (h : 1 ≤ attempt ∧ attempt ≤ s.maxAttempts) :
    (afterAttempt s attempt).Within s.maxAttempts ∧ (afterAttempt s attempt).struck = attempt ∧
      ∀ deadline, afterAttempt s attempt ≠ .grace deadline := by
  rw [afterAttempt_eq]
  split
  · rename_i hlast
    exact ⟨Nat.le_antisymm h.2 hlast, rfl, by simp⟩
  · rename_i hmore
    exact ⟨⟨by omega, by omega⟩, rfl, by simp⟩

/-- One turn leads a reap that is under way on, or to its end. -/
theorem Underway.step (hn : 1 ≤ s.maxAttempts) (hu : Underway s soft ts stage)
    (hb : t.before = some stage) (ht : Took s pgid mode t.event stage t.output)
    (ha : t.after = t.output.next?) : Standing s pgid soft (ts ++ [t]) t.after := by
  obtain ⟨before, m, out, after⟩ := t
  dsimp only at hb ht ha ⊢
  subst hb ha
  have hlook : stage.looks = true → probe? ⟨some stage, m, out, out.next?⟩ = some m.group :=
    probe?_of_looks rfl
  have hnobody : m.members pgid = [] ↔ FindsNobody m.group := liveMembers_eq_nil
  cases ht with
  | vacant | barred | asked | struck => exact hu.within.elim
  | left hm =>
    refine hu.closed (hlook rfl) rfl rfl ?_
    simpa [Stage.struck] using Ended.left hu.begun hu.alive (hnobody.mp hm) (hu.polite _ rfl)
  | pressed hm =>
    refine .underway (hu.looked (hlook rfl) (mt hnobody.mpr hm) ⟨Nat.le_refl 1, hn⟩ ?_ (by simp) rfl)
    rw [hu.sent]
    simp [Turn.signal?, Stage.struck]
  | waited hm =>
    refine .underway (hu.looked (hlook rfl) (mt hnobody.mpr hm) hu.within ?_ hu.polite rfl)
    simp [hu.sent, Turn.signal?]
  | @again attempt =>
    -- the only turn that takes no look
    obtain ⟨hone, hlimit⟩ := hu.within
    have hcount : List.replicate attempt Signal.kill =
        List.replicate (attempt - 1) .kill ++ [.kill] := by
      rw [← List.replicate_succ', Nat.sub_add_cancel hone]
    refine .underway
      { within := ⟨hone, hlimit⟩
        begun := by simpa [probes_snoc, probe?, Stage.looks] using hu.begun
        alive := by simpa [probes_snoc, probe?, Stage.looks] using hu.alive
        sent := ?_
        polite := by simp
        unfinished := result?_snoc hu.unfinished }
    rw [signals_snoc, hu.sent]
    simp [Turn.signal?, Stage.struck, hcount]
  | fell hm =>
    exact hu.closed (hlook rfl) rfl rfl
      (.fell hu.begun hu.alive (hnobody.mp hm) hu.within.1 hu.within.2)
  | outlived hm =>
    obtain ⟨hwithin, hstruck, hgrace⟩ := afterAttempt_within hu.within
    refine .underway (hu.looked (hlook rfl) (mt hnobody.mpr hm) hwithin ?_ ?_ rfl)
    · rw [hu.sent, hstruck]
      simp [Turn.signal?, Stage.struck]
    · exact fun deadline h => absurd h (hgrace deadline)
  | polled hm =>
    refine .underway (hu.looked (hlook rfl) (mt hnobody.mpr hm) hu.within ?_ hu.polite rfl)
    simp [hu.sent, Turn.signal?]
  | late hm =>
    obtain rfl := hu.within
    exact hu.closed (hlook rfl) rfl rfl (.fell hu.begun hu.alive (hnobody.mp hm) hn (Nat.le_refl _))
  | survived hm =>
    obtain rfl := hu.within
    exact hu.closed (hlook rfl) rfl rfl (.survived hu.alive (mt hnobody.mpr hm))

theorem standing_of_opening (hn : 1 ≤ s.maxAttempts) (hb : t.before = some .opening)
    (ht : Took s pgid mode t.event .opening t.output) (ha : t.after = t.output.next?) :
    Standing s pgid (courtesy mode t.event) [t] t.after := by
  obtain ⟨before, m, out, after⟩ := t
  dsimp only at hb ht ha ⊢
  subst hb ha
  have hnobody : m.members pgid = [] ↔ FindsNobody m.group := liveMembers_eq_nil
  cases ht with
  | vacant hm => exact .ended rfl (.vacant (hnobody.mp hm))
  | barred _ hzero => omega
  | asked hm _ hmode hflag =>
    refine .underway
      { within := trivial
        begun := by simp [probes, probe?, Stage.looks]
        alive := by simpa [probes, probe?, Stage.looks] using mt hnobody.mpr hm
        sent := by simp [signals, Turn.signal?, courtesy, hmode, hflag, Stage.struck]
        polite := by simp [courtesy, hmode, hflag]
        unfinished := rfl }
  | struck hm _ hfirm =>
    refine .underway
      { within := ⟨Nat.le_refl 1, hn⟩
        begun := by simp [probes, probe?, Stage.looks]
        alive := by simpa [probes, probe?, Stage.looks] using mt hnobody.mpr hm
        sent := by simp [signals, Turn.signal?, courtesy, hfirm, Stage.struck]
        polite := by simp
        unfinished := rfl }

end Turn

theorem path_standing (hn : 1 ≤ s.maxAttempts)
    (hp : Path (advance s pgid mode) (some .opening) ts st)
    (hfirst : ∀ t ∈ ts.head?, t.event = m) : Standing s pgid (courtesy mode m) ts st := by
  induction hp with
  | nil => exact .opening rfl
  | @snoc ts t _ ht ih =>
    obtain ⟨stage, hb, htook, ha⟩ := step_took ht
    have hstanding := ih fun u hu => hfirst u (by simp [Option.mem_def.mp hu])
    rw [hb] at hstanding
    cases hstanding with
    | opening hnil =>
      subst hnil
      obtain rfl : t.event = m := hfirst t (by simp)
      simpa using standing_of_opening hn hb htook ha
    | underway hu => exact hu.step hn hb htook ha

-- ---------------------------------------------------------------------------
-- The contract
-- ---------------------------------------------------------------------------

/-- What has to hold between the looks of a reap that began at moment `m`, the signals it sent and what it
returned. -/
structure KeepsContract (s : Settings.Reaping) (pgid : Int) (mode : ReapMode) (m : Moment)
    (looks : List GroupProbe) (sent : List Signal) (r : Result) : Prop where
  vacant : r = .inl .alreadyReaped ↔ ∃ p ∈ looks.head?, FindsNobody p
  idle : r = .inl .alreadyReaped → sent = []
  stops : ∀ ps p qs, looks = ps ++ p :: qs → FindsNobody p → qs = []
  cleared : (∃ forced attempts, r = .inl (.terminated forced attempts)) ↔
    (∀ p ∈ looks.head?, ¬ FindsNobody p) ∧ ∃ p ∈ looks, FindsNobody p
  failed : (∃ failure, r = .inr failure) ↔ ∀ p ∈ looks, ¬ FindsNobody p
  failure : ∀ failure, r = .inr failure → failure.pgid = pgid ∧ failure.attempts = s.maxAttempts ∧
    sent.count .kill = s.maxAttempts ∧ ∃ p ∈ looks.getLast?, Names pgid p failure.survivors
  order : r ≠ .inl .alreadyReaped →
    ∃ hard ≤ s.maxAttempts, sent = courtesy mode m ++ List.replicate hard .kill
  forced : ∀ forced attempts, r = .inl (.terminated forced attempts) → (forced = false ↔ .kill ∉ sent)

namespace Ended

variable {soft : List Signal} {looks ps qs : List GroupProbe} {sent : List Signal} {r : Result}
  {p : GroupProbe}

theorem vacant_iff (h : Ended s pgid soft looks sent r) :
    r = .inl .alreadyReaped ↔ ∃ p ∈ looks.head?, FindsNobody p := by
  cases h with
  | vacant hp => simpa using hp
  | left hne halive | fell hne halive =>
    obtain ⟨q, qs, rfl⟩ := List.exists_cons_of_ne_nil hne
    simpa using halive q (by simp)
  | @survived ps p halive hp =>
    cases ps with
    | nil => simpa using hp
    | cons q qs => simpa using halive q (by simp)

theorem last_of_append {q : GroupProbe} (halive : ∀ q ∈ ps, ¬ FindsNobody q)
    (h : ps ++ [p] = us ++ q :: vs) (hq : FindsNobody q) : vs = [] := by
  rcases List.eq_nil_or_concat vs with rfl | ⟨vs, v, rfl⟩
  · rfl
  · obtain ⟨rfl, -⟩ : ps = us ++ q :: vs ∧ [p] = [v] :=
      List.append_inj' (by simpa using h) rfl
    exact absurd hq (halive q (by simp))

theorem stops (h : Ended s pgid soft looks sent r) (hl : looks = us ++ p :: vs)
    (hp : FindsNobody p) : vs = [] := by
  cases h with
  | vacant => exact last_of_append (by simp) (List.nil_append _ |>.trans hl) hp
  | left _ halive | fell _ halive | survived halive => exact last_of_append halive hl hp

theorem failed_iff (h : Ended s pgid soft looks sent r) :
    (∃ failure, r = .inr failure) ↔ ∀ p ∈ looks, ¬ FindsNobody p := by
  cases h with
  | vacant hp | left _ _ hp | fell _ _ hp => simp [hp]
  | survived halive hp =>
    refine iff_of_true ⟨_, rfl⟩ ?_
    intro q hq
    rcases List.mem_append.mp hq with hq | hq
    · exact halive q hq
    · obtain rfl := List.mem_singleton.mp hq
      exact hp

theorem cleared_iff (h : Ended s pgid soft looks sent r) :
    (∃ forced attempts, r = .inl (.terminated forced attempts)) ↔
      (∀ p ∈ looks.head?, ¬ FindsNobody p) ∧ ∃ p ∈ looks, FindsNobody p := by
  have hvacant := h.vacant_iff
  have hfailed := h.failed_iff
  constructor
  · rintro ⟨forced, attempts, rfl⟩
    refine ⟨fun p hp hnobody => ?_, ?_⟩
    · exact absurd (hvacant.mpr ⟨p, hp, hnobody⟩) (by simp)
    · refine Classical.byContradiction fun hnone => ?_
      obtain ⟨failure, hr⟩ := hfailed.mpr fun p hp hnobody => hnone ⟨p, hp, hnobody⟩
      cases hr
  · rintro ⟨hfirst, p, hp, hnobody⟩
    match r with
    | .inl .alreadyReaped =>
      obtain ⟨q, hq, hempty⟩ := hvacant.mp rfl
      exact absurd hempty (hfirst q hq)
    | .inl (.terminated forced attempts) => exact ⟨forced, attempts, rfl⟩
    | .inr failure => exact absurd hnobody (hfailed.mp ⟨failure, rfl⟩ p hp)

theorem courtesy_count : (courtesy mode m).count .kill = 0 := by
  unfold courtesy
  split <;> decide

theorem failure {failure : ReapFailure} (h : Ended s pgid (courtesy mode m) looks sent (.inr failure)) :
    failure.pgid = pgid ∧ failure.attempts = s.maxAttempts ∧ sent.count .kill = s.maxAttempts ∧
      ∃ p ∈ looks.getLast?, Names pgid p failure.survivors := by
  cases h with
  | @survived ps p _ hp =>
    refine ⟨rfl, rfl, ?_, p, by simp, names_liveMembers hp⟩
    rw [List.count_append, courtesy_count, List.count_replicate_self, Nat.zero_add]

theorem order (h : Ended s pgid soft looks sent r) (hr : r ≠ .inl .alreadyReaped) :
    ∃ hard ≤ s.maxAttempts, sent = soft ++ List.replicate hard .kill := by
  cases h with
  | vacant => exact absurd rfl hr
  | left => exact ⟨0, Nat.zero_le _, by simp⟩
  | fell _ _ _ _ hk => exact ⟨_, hk, rfl⟩
  | survived => exact ⟨_, Nat.le_refl _, rfl⟩

theorem forced_iff {forced : Bool} {attempts : Nat}
    (h : Ended s pgid soft looks sent (.inl (.terminated forced attempts))) :
    forced = false ↔ .kill ∉ sent := by
  cases h with
  | left _ _ _ hsoft => simp [hsoft]
  | fell _ _ _ hk =>
    have hmem : Signal.kill ∈ List.replicate attempts .kill :=
      List.mem_replicate.mpr ⟨Nat.ne_of_gt hk, rfl⟩
    simp [hmem]

theorem keepsContract (h : Ended s pgid (courtesy mode m) looks sent r) :
    KeepsContract s pgid mode m looks sent r where
  vacant := h.vacant_iff
  idle := by
    rintro rfl
    cases h
    rfl
  stops := fun _ _ _ => h.stops
  cleared := h.cleared_iff
  failed := h.failed_iff
  failure := by
    rintro failure rfl
    exact h.failure
  order := h.order
  forced := by
    rintro forced attempts rfl
    exact h.forced_iff

end Ended

-- ---------------------------------------------------------------------------
-- Every reap comes to an end
-- ---------------------------------------------------------------------------

section Time

variable {moment : Nat → Moment}

def TimePasses (moment : Nat → Moment) : Prop := ∀ time, ∃ K, ∀ k, K ≤ k → time ≤ (moment k).now

def turnAt (s : Settings.Reaping) (pgid : Int) (mode : ReapMode) (moment : Nat → Moment) (stage : Stage)
    (k : Nat) : Turn :=
  turn s pgid mode stage (moment k).now (moment k).group (moment k).escalated

inductive Ends (s : Settings.Reaping) (pgid : Int) (mode : ReapMode) (moment : Nat → Moment) :
    Stage → Nat → Prop
  | ended {a k} : (turnAt s pgid mode moment a k).next? = none → Ends s pgid mode moment a k
  | next {a b k} : (turnAt s pgid mode moment a k).next? = some b →
      Ends s pgid mode moment b (k + 1) → Ends s pgid mode moment a k

theorem tookAt (s : Settings.Reaping) (pgid : Int) (mode : ReapMode) (moment : Nat → Moment)
    (stage : Stage) (k : Nat) :
    Took s pgid mode (moment k) stage (turnAt s pgid mode moment stage k) :=
  took s pgid mode stage (moment k)

theorem result?_of_next?_none {t : Turn} (h : t.next? = none) : ∃ r, t.result? = some r := by
  cases t with
  | done outcome => exact ⟨.inl outcome, rfl⟩
  | failed failure => exact ⟨.inr failure, rfl⟩
  | send | pause => cases h

theorem result?_of_next?_some {t : Turn} (h : t.next? = some stage) : t.result? = none := by
  cases t with
  | send | pause => rfl
  | done | failed => cases h

theorem Ends.result (h : Ends s pgid mode moment stage k) :
    ∃ j r, result? (steps (advance s pgid mode) (some stage) ((List.range' k j).map moment)) =
      some r := by
  induction h with
  | @ended a k hover =>
    obtain ⟨r, hr⟩ := result?_of_next?_none hover
    refine ⟨1, r, ?_⟩
    simpa [steps, advance, result?, turnAt] using hr
  | @next a b k hnext _ ih =>
    obtain ⟨j, r, hr⟩ := ih
    have hnone := result?_of_next?_some hnext
    refine ⟨j + 1, r, ?_⟩
    unfold turnAt at hnext hnone
    simpa [List.range'_succ, steps, advance, result?, hnext, hnone] using hr

/-- A stage that is left once its deadline has passed is left sooner or later. -/
theorem Ends.of_polling (htime : TimePasses moment) (deadline : Nat)
    (hpoll : ∀ k, Ends s pgid mode moment stage k ∨
      (turnAt s pgid mode moment stage k).next? = some stage ∧ (moment k).now < deadline) (k : Nat) :
    Ends s pgid mode moment stage k := by
  obtain ⟨K, hK⟩ := htime deadline
  -- by induction on how many moments are left before the deadline has passed
  obtain ⟨n, hn⟩ : ∃ n, K ≤ k + n := ⟨K, by omega⟩
  induction n generalizing k with
  | zero =>
    rcases hpoll k with h | ⟨-, hearly⟩
    · exact h
    · exact absurd (hK k hn) (Nat.not_le_of_lt hearly)
  | succ n ih =>
    rcases hpoll k with h | ⟨hnext, -⟩
    · exact h
    · exact .next hnext (ih (k + 1) (by omega))

theorem ends_lastLook (attempts k : Nat) : Ends s pgid mode moment (.lastLook attempts) k := by
  apply Ends.ended
  have ht := tookAt s pgid mode moment (.lastLook attempts) k
  generalize turnAt s pgid mode moment (.lastLook attempts) k = t at ht ⊢
  cases ht <;> rfl

theorem ends_kill (htime : TimePasses moment) (attempt deadline k : Nat) :
    Ends s pgid mode moment (.kill attempt deadline) k := by
  -- by induction on the attempts that remain
  induction hleft : s.maxAttempts - attempt using Nat.strongRecOn generalizing attempt deadline k with
  | ind n ih =>
    refine Ends.of_polling htime deadline (fun k => ?_) k
    have ht := tookAt s pgid mode moment (.kill attempt deadline) k
    generalize hturn : turnAt s pgid mode moment (.kill attempt deadline) k = t at ht ⊢
    cases ht with
    | fell => exact .inl (.ended (by rw [hturn]; rfl))
    | outlived =>
      refine .inl (.next (by rw [hturn]; rfl) ?_)
      rw [afterAttempt_eq]
      split
      · exact ends_lastLook attempt (k + 1)
      · rename_i hmore
        exact .next rfl (ih (s.maxAttempts - (attempt + 1)) (by omega) (attempt + 1) _ (k + 2) rfl)
    | polled _ hearly => exact .inr ⟨rfl, hearly⟩

theorem ends_grace (htime : TimePasses moment) (deadline k : Nat) :
    Ends s pgid mode moment (.grace deadline) k := by
  refine Ends.of_polling htime deadline (fun k => ?_) k
  have ht := tookAt s pgid mode moment (.grace deadline) k
  generalize hturn : turnAt s pgid mode moment (.grace deadline) k = t at ht ⊢
  cases ht with
  | left => exact .inl (.ended (by rw [hturn]; rfl))
  | pressed => exact .inl (.next (by rw [hturn]; rfl) (ends_kill htime 1 _ (k + 1)))
  | waited _ hearly => exact .inr ⟨rfl, hearly⟩

theorem ends_opening (htime : TimePasses moment) (k : Nat) : Ends s pgid mode moment .opening k := by
  have ht := tookAt s pgid mode moment .opening k
  generalize hturn : turnAt s pgid mode moment .opening k = t at ht
  cases ht with
  | vacant => exact .ended (by rw [hturn]; rfl)
  | barred => exact .next (by rw [hturn]; rfl) (ends_lastLook 0 (k + 1))
  | asked => exact .next (by rw [hturn]; rfl) (ends_grace htime _ (k + 1))
  | struck => exact .next (by rw [hturn]; rfl) (ends_kill htime 1 _ (k + 1))

end Time

-- ---------------------------------------------------------------------------
-- The result
-- ---------------------------------------------------------------------------

theorem turns_path (s : Settings.Reaping) (pgid : Int) (mode : ReapMode) (moment : Nat → Moment) (k : Nat) :
    ∃ reached, Path (advance s pgid mode) (some .opening) (turns s pgid mode moment k) reached := by
  have hall : turns s pgid mode moment k = turns s pgid mode moment k ++ [] := by simp
  obtain ⟨reached, -, hp, -⟩ := steps_eq_append hall
  exact ⟨reached, hp⟩

theorem turns_first (ht : t ∈ (turns s pgid mode moment k).head?) : t.event = moment 0 := by
  cases k with
  | zero => simp [turns, steps] at ht
  | succ k =>
    simp only [turns, List.range_succ_eq_map, List.map_cons, steps, advance, List.head?_cons,
      Option.mem_def, Option.some.injEq] at ht
    rw [← ht]

/-- Whatever the looks answer and whenever the grace period is cut short, a reap that returns keeps the
contract, and it returns if time passes. -/
theorem keeps_contract (s : Settings.Reaping) (pgid : Int) (mode : ReapMode) (moment : Nat → Moment)
    (hn : 1 ≤ s.maxAttempts) :
    (∀ k r, result? (turns s pgid mode moment k) = some r →
      KeepsContract s pgid mode (moment 0) (probes (turns s pgid mode moment k))
        (signals (turns s pgid mode moment k)) r) ∧
    (TimePasses moment → ∃ k r, result? (turns s pgid mode moment k) = some r) := by
  refine ⟨fun k r hr => ?_, fun htime => ?_⟩
  · obtain ⟨reached, hp⟩ := turns_path s pgid mode moment k
    cases path_standing hn hp fun t ht => turns_first ht with
    | opening hnil => simp [hnil, result?] at hr
    | underway hu => exact absurd (hu.unfinished.symm.trans hr) (by simp)
    | ended hr' hended =>
      obtain rfl := Option.some.inj (hr.symm.trans hr')
      exact hended.keepsContract
  · have hends : Ends s pgid mode moment .opening 0 := ends_opening htime 0
    obtain ⟨j, r, hr⟩ := hends.result
    refine ⟨j, r, ?_⟩
    rw [turns, List.range_eq_range']
    exact hr

def unmoved (k : Nat) : Moment := ⟨30 * k, .ok [42, 43], false⟩

theorem keeps_contract_unmoved :
    1 ≤ (⟨50, 50, 10, 2⟩ : Settings.Reaping).maxAttempts ∧ TimePasses unmoved ∧
      (∃ k r, result? (turns ⟨50, 50, 10, 2⟩ 42 .graceful unmoved k) = some r) ∧
      KeepsContract ⟨50, 50, 10, 2⟩ 42 .graceful (unmoved 0)
        (probes (turns ⟨50, 50, 10, 2⟩ 42 .graceful unmoved 12))
        (signals (turns ⟨50, 50, 10, 2⟩ 42 .graceful unmoved 12)) (.inr ⟨42, [42, 43], 2⟩) := by
  have htime : TimePasses unmoved := fun time => ⟨time, fun k hk => by unfold unmoved; dsimp; omega⟩
  have h := keeps_contract ⟨50, 50, 10, 2⟩ 42 .graceful unmoved (by decide)
  exact ⟨by decide, htime, h.2 htime, h.1 12 _ (by decide)⟩

end Vigil.Reap
