import Vigil.Proofs.Supervisor.Answers
import Vigil.Proofs.Supervisor.Deeds

/-!
# What becomes of tracked workloads

Each workload that is tracked comes to be waited for, is displaced by a later one of the same identity, or
is kept. `Supervisor.accounts_for_tracked`: under every interleaving a shutdown returns one outcome for each
workload that was neither waited for nor displaced, a wait returns that of the workload it takes out, and the
state of a kept workload whose watch has ended is the final one. `Supervisor.finished_displaced`: a workload
that has ended and was never waited for is lost if its process number is given again.
-/

namespace Vigil.Supervisor

variable {s : Settings} {g g' v : Supervisor} {p : Nat} {id : ProcessId} {past : List Deed}
variable {call : SupervisorCall} {a : SupervisorAnswer} {o : WatchOutcome} {outcomes : List WatchOutcome}
variable {left : List Nat} {finishing : Bool}

-- ---------------------------------------------------------------------------
-- What a caller was told
-- ---------------------------------------------------------------------------

def deeds (g : Supervisor) : List Deed := deedsOf g.history

/-- The wait in hand has taken its workload out already. -/
def pending (g : Supervisor) : List Deed :=
  match g.inHand with
  | some (.wait id, _) => [.waited id]
  | _ => []

def EndedWith (g : Supervisor) (p : Nat) (o : WatchOutcome) : Prop := ∃ seen, g.outcome? p seen = some o

def Later (s : Settings) (g g' : Supervisor) : Prop :=
  ∀ (p : Nat) (c : Charge), g.charges[p]? = some c → ∃ c', g'.charges[p]? = some c' ∧ c.GoesOn s c'

theorem Later.of_goOn (h : GoOn s g.charges g'.charges) : Later s g g' := fun _ _ => h.get

theorem Later.of_eq (h : g'.charges = g.charges) : Later s g g' := .of_goOn (h ▸ goOn_refl _)

theorem Later.of_append {charges more : List Charge} (hgo : GoOn s g.charges charges)
    (h : g'.charges = charges ++ more) : Later s g g' := by
  intro p c hc
  obtain ⟨c', hc', hlater⟩ := hgo.get hc
  have hp : p < charges.length := (List.getElem?_eq_some_iff.mp hc').1
  exact ⟨c', by rw [h, List.getElem?_append_left hp, hc'], hlater⟩

theorem Later.trans (h : Later s g g') (h' : Later s g' v) : Later s g v := by
  intro p c hc
  obtain ⟨c', hc', hgo⟩ := h p c hc
  obtain ⟨c'', hc'', hgo'⟩ := h' p c' hc'
  exact ⟨c'', hc'', hgo.trans hgo'⟩

theorem outcome?_eq_some : g.outcome? p seen = some o ↔
    ∃ c, g.charges[p]? = some c ∧ c.isFinished ∧ c.outcome seen = o := by
  unfold outcome?
  cases g.charges[p]? with
  | none => simp
  | some c => simp

theorem Later.endedWith (h : Later s g g') (ho : g.EndedWith p o) : g'.EndedWith p o := by
  obtain ⟨seen, ho⟩ := ho
  obtain ⟨c, hc, hf, rfl⟩ := outcome?_eq_some.mp ho
  obtain ⟨c', hc', hgo⟩ := h p c hc
  exact ⟨seen, outcome?_eq_some.mpr ⟨c', hc', hgo.isFinished hf, hgo.outcome hf seen⟩⟩

/-- Shutting down and waiting tell the outcomes of the workloads that they are about. -/
def Tells (g : Supervisor) (past : List Deed) : SupervisorCall → SupervisorAnswer → Prop
  | .shutdown _, a => ∃ places outcomes, a = .outcomes outcomes ∧ places.Nodup ∧
      (∀ p, p ∈ places ↔ ∃ id, Kept past id p) ∧ List.Forall₂ g.EndedWith places outcomes
  | .wait id, a => ∃ outcome, a = .outcome outcome ∧
      (∀ p, Kept past id p → ∃ o, outcome = some o ∧ g.EndedWith p o) ∧
      ((∀ p, ¬ Kept past id p) → outcome = none)
  | _, _ => True

theorem Tells.later (h : Later s g g') (ht : g.Tells past call a) : g'.Tells past call a := by
  cases call with
  | shutdown =>
    obtain ⟨places, outcomes, ha, hnodup, hmem, hended⟩ := ht
    exact ⟨places, outcomes, ha, hnodup, hmem, hended.imp fun _ _ => h.endedWith⟩
  | wait =>
    obtain ⟨outcome, ha, hkept, hnone⟩ := ht
    refine ⟨outcome, ha, ?_, hnone⟩
    intro p hp
    obtain ⟨o, ho, hended⟩ := hkept p hp
    exact ⟨o, ho, h.endedWith hended⟩
  | _ => trivial

/-- The stage belongs to the call in hand, and the outcomes that are there so far are those of the first
workloads that are waited for. -/
inductive Underway (g : Supervisor) : Option (SupervisorCall × CallStage) → Prop
  | idle : Underway g none
  | resetting {id place} : Underway g (some (.reset id, .resetting place))
  | shuttingDown {immediate left} : Underway g (some (.requestShutdown immediate, .sending left false))
  | finishing {immediate left} : Underway g (some (.shutdown immediate, .sending left true))
  | waiting {id p done left seen outcomes} : Kept g.deeds id p → [p] = done ++ left →
      List.Forall₂ g.EndedWith done outcomes →
      Underway g (some (.wait id, .joining left seen outcomes false))
  | joining {immediate done left seen outcomes} : g.register.handles = done ++ left →
      List.Forall₂ g.EndedWith done outcomes →
      Underway g (some (.shutdown immediate, .joining left seen outcomes true))

structure Books (s : Settings) (g : Supervisor) : Prop where
  ids : g.charges.map Charge.id = trackedIds g.deeds
  begun : ∀ c ∈ g.charges, c.Begun s
  underway : g.Underway g.inHand
  keeps : Keeps g.register (g.deeds ++ g.pending)
  told : ∀ pre call a post, g.history = pre ++ (call, a) :: post → g.Tells (deedsOf pre) call a

-- ---------------------------------------------------------------------------
-- One step
-- ---------------------------------------------------------------------------

theorem Books.answer (h : g.Books s) (hsame : v.history = g.history) (hlater : Later s g v)
    (hids : v.charges.map Charge.id = trackedIds (g.deeds ++ (Deed.of? (call, a)).toList))
    (hbegun : ∀ c ∈ v.charges, c.Begun s)
    (hkeeps : Keeps v.register (g.deeds ++ (Deed.of? (call, a)).toList))
    (ht : v.Tells g.deeds call a) : (v.reply call a).Books s := by
  have hdeeds : (v.reply call a).deeds = g.deeds ++ (Deed.of? (call, a)).toList := by
    simp only [deeds, deedsOf, reply, hsame, List.filterMap_append, List.filterMap_cons,
      List.filterMap_nil]
    cases Deed.of? (call, a) <;> rfl
  have hreply : Later s v (v.reply call a) := .of_eq rfl
  refine ⟨hdeeds ▸ hids, hbegun, .idle, ?_, ?_⟩
  · rw [hdeeds]
    simpa [pending, reply] using hkeeps
  · intro pre call' a' post hsplit
    rcases List.eq_nil_or_concat post with rfl | ⟨post, b, rfl⟩
    · obtain ⟨hpre, hlast⟩ := List.append_inj' hsplit rfl
      obtain ⟨rfl, rfl⟩ := Prod.mk.inj (List.singleton_inj.mp hlast)
      rw [← hpre, hsame]
      exact ht.later hreply
    · obtain ⟨hpre, -⟩ : v.history = pre ++ (call', a') :: post ∧ [(call, a)] = [b] :=
        List.append_inj' (by simpa [reply] using hsplit) rfl
      exact ((h.told pre call' a' post (hsame ▸ hpre)).later hlater).later hreply

theorem Books.answer_plain {charges : List Charge} (h : g.Books s) (hgo : GoOn s g.charges charges)
    (hpending : g.pending = []) (hdeed : Deed.of? (call, a) = none)
    (ht : Tells { g with charges } g.deeds call a) : (reply { g with charges } call a).Books s := by
  have hkeeps := h.keeps
  rw [hpending] at hkeeps
  refine h.answer rfl (.of_goOn hgo) ?_ (hgo.begun h.begun) (by rwa [hdeed]) ht
  rw [hdeed, Option.toList_none, List.append_nil, hgo.ids]
  exact h.ids

theorem Books.go (h : g.Books s) (hsame : v.history = g.history) (hgo : GoOn s g.charges v.charges)
    (hunderway : v.Underway v.inHand) (hkeeps : Keeps v.register (g.deeds ++ v.pending)) : v.Books s where
  ids := by rw [hgo.ids, deeds, hsame]; exact h.ids
  begun := hgo.begun h.begun
  underway := hunderway
  keeps := by rw [deeds, hsame]; exact hkeeps
  told pre call a post hsplit := (h.told pre call a post (hsame ▸ hsplit)).later (.of_goOn hgo)

theorem Underway.goOn {charges : List Charge} {hand : Option (SupervisorCall × CallStage)}
    (h : g.Underway hand) (hgo : GoOn s g.charges charges) : Underway { g with charges } hand := by
  have hlater : Later s g { g with charges } := .of_goOn hgo
  cases h with
  | idle => exact .idle
  | resetting => exact .resetting
  | shuttingDown => exact .shuttingDown
  | finishing => exact .finishing
  | waiting hkept hplaces hended =>
    exact .waiting hkept hplaces (hended.imp fun _ _ => hlater.endedWith)
  | joining hplaces hended => exact .joining hplaces (hended.imp fun _ _ => hlater.endedWith)

theorem pending_idle (hidle : g.inHand = none) : g.pending = [] := by simp [pending, hidle]

theorem Books.idle_keeps (h : g.Books s) (hidle : g.inHand = none) : Keeps g.register g.deeds := by
  simpa [pending_idle hidle] using h.keeps

theorem Books.track {charges : List Charge} (h : g.Books s) (hidle : g.inHand = none)
    (hgo : GoOn s g.charges charges) (id : ProcessId) (now : Nat) :
    (reply { g with
      charges := charges ++ [Charge.start s id now]
      register := g.register.insert id g.charges.length }
      (.track (.ok id) now) (.tracked id)).Books s := by
  have hlength : g.charges.length = (trackedIds g.deeds).length := by rw [← h.ids, List.length_map]
  refine h.answer rfl (.of_append hgo rfl) ?_ ?_ ?_ trivial
  · rw [List.map_append, hgo.ids, h.ids, trackedIds_append]
    rfl
  · intro c hc
    rcases List.mem_append.mp hc with hc | hc
    · exact hgo.begun h.begun c hc
    · rw [List.mem_singleton.mp hc]
      exact Charge.start_begun s id now
  · show Keeps (g.register.insert id g.charges.length) _
    rw [hlength]
    exact (h.idle_keeps hidle).track id

theorem Books.absent (h : g.Books s) (hidle : g.inHand = none) (hfind : g.register.find? id = none) :
    (g.reply (.wait id) (.outcome none)).Books s := by
  have hkeeps := h.idle_keeps hidle
  refine h.answer rfl (.of_eq rfl) (by simpa [Deed.of?] using h.ids) h.begun
    (hkeeps.wait_absent hfind) ⟨none, rfl, ?_, fun _ => rfl⟩
  intro p hkept
  exact absurd hkept (hkeeps.not_kept hfind)

/-- The register lets go of a workload before its outcome is there: from here on the wait is pending. -/
theorem Books.wait (h : g.Books s) (hidle : g.inHand = none) (hfind : g.register.find? id = some p) :
    Books s { g with
      register := g.register.erase id
      inHand := some (.wait id, .joining [p] none [] false) } := by
  have hkeeps := h.idle_keeps hidle
  exact h.go rfl (goOn_refl _) (.waiting (hkeeps.kept hfind) rfl .nil) (hkeeps.wait id)

theorem Books.look (h : g.Books s)
    (hhand : g.inHand = some (call, .joining (p :: left) none outcomes finishing)) :
    Books s { g with inHand := some (call, .joining (p :: left) (some seen) outcomes finishing) } := by
  have hunderway := h.underway
  have hkeeps := h.keeps
  rw [hhand] at hunderway
  cases hunderway with
  | waiting hkept hplaces hended =>
    exact h.go rfl (goOn_refl _) (.waiting hkept hplaces hended) (by simpa [pending, hhand] using hkeeps)
  | joining hplaces hended =>
    exact h.go rfl (goOn_refl _) (.joining hplaces hended) (by simpa [pending, hhand] using hkeeps)

theorem Books.join (h : g.Books s)
    (hhand : g.inHand = some (call, .joining (p :: left) (some seen) outcomes finishing))
    (hout : g.outcome? p seen = some o) :
    Books s { g with inHand := some (call, .joining left none (outcomes ++ [o]) finishing) } := by
  have hunderway := h.underway
  have hkeeps := h.keeps
  rw [hhand] at hunderway
  cases hunderway with
  | waiting hkept hplaces hended =>
    have hmore := List.rel_append hended (.cons ⟨_, hout⟩ .nil)
    exact h.go rfl (goOn_refl _) (.waiting hkept (by simpa using hplaces) hmore)
      (by simpa [pending, hhand] using hkeeps)
  | joining hplaces hended =>
    have hmore := List.rel_append hended (.cons ⟨_, hout⟩ .nil)
    exact h.go rfl (goOn_refl _) (.joining (by simpa using hplaces) hmore)
      (by simpa [pending, hhand] using hkeeps)

theorem Books.waited (h : g.Books s) (hhand : g.inHand = some (call, .joining [] seen outcomes false)) :
    (g.reply call (.outcome outcomes.head?)).Books s := by
  have hunderway := h.underway
  have hkeeps := h.keeps
  rw [hhand] at hunderway
  cases hunderway with
  | @waiting id p done _ _ _ hkept hplaces hended =>
    obtain rfl : done = [p] := by simpa using hplaces.symm
    cases hended with
    | cons hended hnil =>
      cases hnil
      refine h.answer rfl (.of_eq rfl) (by simpa [Deed.of?] using h.ids) h.begun
        (by simpa [pending, hhand, Deed.of?] using hkeeps)
        ⟨_, rfl, ?_, fun hno => absurd hkept (hno p)⟩
      intro q hq
      obtain rfl := hkept.unique hq
      exact ⟨_, rfl, hended⟩

theorem Books.finished (h : g.Books s) (hhand : g.inHand = some (call, .joining [] seen outcomes true)) :
    (g.reply call (.outcomes outcomes)).Books s := by
  have hunderway := h.underway
  rw [hhand] at hunderway
  cases hunderway with
  | joining hplaces hended =>
    have hpending : g.pending = [] := by simp [pending, hhand]
    have hall : Keeps g.register g.deeds := by simpa [hpending] using h.keeps
    refine h.answer_plain (goOn_refl _) hpending rfl
      ⟨g.register.handles, _, rfl, hall.nodup, fun p => hall.mem_handles, ?_⟩
    rw [hplaces, List.append_nil]
    exact hended

theorem move_books (hm : Move s g g') (h : g.Books s) : g'.Books s := by
  have hunderway := h.underway
  have hkeeps := h.keeps
  cases hm with
  | goneOn hgo => exact h.go rfl hgo (hunderway.goOn hgo) hkeeps
  | tracked hidle hgo => exact h.track hidle hgo _ _
  | refused hidle | told hidle | unknown hidle =>
    exact h.answer_plain (goOn_refl _) (pending_idle hidle) rfl trivial
  | resetting hidle => exact h.go rfl (goOn_refl _) .resetting (by simpa [pending, hidle] using hkeeps)
  | shuttingDown hidle =>
    exact h.go rfl (goOn_refl _) .shuttingDown (by simpa [pending, hidle] using hkeeps)
  | finishing hidle => exact h.go rfl (goOn_refl _) .finishing (by simpa [pending, hidle] using hkeeps)
  | reset hhand hgo =>
    rw [hhand] at hunderway
    cases hunderway with
    | resetting => exact h.answer_plain hgo (by simp [pending, hhand]) rfl trivial
  | sent hhand hgo =>
    rw [hhand] at hunderway
    cases hunderway with
    | shuttingDown => exact h.go rfl hgo .shuttingDown (by simpa [pending, hhand] using hkeeps)
    | finishing => exact h.go rfl hgo .finishing (by simpa [pending, hhand] using hkeeps)
  | shutDown hhand =>
    rw [hhand] at hunderway
    cases hunderway with
    | shuttingDown => exact h.answer_plain (goOn_refl _) (by simp [pending, hhand]) rfl trivial
  | joining hhand =>
    rw [hhand] at hunderway
    cases hunderway with
    | finishing =>
      exact h.go rfl (goOn_refl _) (.joining rfl .nil) (by simpa [pending, hhand] using hkeeps)
  | absent hidle hfind => exact h.absent hidle hfind
  | waiting hidle hfind => exact h.wait hidle hfind
  | looked hhand => exact h.look hhand
  | joined hhand hout => exact h.join hhand hout
  | waited hhand => exact h.waited hhand
  | finished hhand => exact h.finished hhand

theorem move_later (hm : Move s g g') : Later s g g' := by
  cases hm with
  | goneOn hgo | reset _ hgo | sent _ hgo => exact .of_goOn hgo
  | tracked _ hgo => exact .of_append hgo rfl
  | _ => exact .of_eq rfl

-- ---------------------------------------------------------------------------
-- Whole runs
-- ---------------------------------------------------------------------------

theorem play_preserves {P : Supervisor → Prop} (hstep : ∀ g g', Move s g g' → P g → P g') (hg : P g)
    (events : List SupervisorEvent) : P (play s g events) := by
  induction events generalizing g with
  | nil => exact hg
  | cons e events ih => exact ih (hstep _ _ (step_move s g e) hg)

theorem start_books (s : Settings) : Books s {} where
  ids := rfl
  begun := by simp
  underway := .idle
  keeps := ⟨fun id p => by simp [pending, deeds, deedsOf, Kept, TrackedAt], List.nodup_nil⟩
  told := by simp

theorem play_books (s : Settings) (events : List SupervisorEvent) : (play s {} events).Books s :=
  play_preserves (fun _ _ => move_books) (start_books s) events

theorem play_later (s : Settings) (g : Supervisor) (events : List SupervisorEvent) :
    Later s g (play s g events) :=
  play_preserves (P := Later s g) (fun _ _ hm h => h.trans (move_later hm)) (.of_eq rfl) events

theorem deedsOf_split {history : List (SupervisorCall × SupervisorAnswer)} {ds rest : List Deed} {d : Deed}
    (h : deedsOf history = ds ++ d :: rest) : ∃ pre call a post, history = pre ++ (call, a) :: post ∧
      deedsOf pre = ds ∧ Deed.of? (call, a) = some d := by
  obtain ⟨pre, tail, rfl, hpre, htail⟩ := List.filterMap_eq_append_iff.mp h
  obtain ⟨quiet, ⟨call, a⟩, post, rfl, hquiet, hd, -⟩ := List.filterMap_eq_cons_iff.mp htail
  refine ⟨pre ++ quiet, call, a, post, by simp, ?_, hd⟩
  rw [deedsOf, List.filterMap_append, hpre, List.filterMap_eq_nil_iff.mpr hquiet, List.append_nil]

theorem of?_eq_waited (h : Deed.of? (call, a) = some (.waited id)) :
    call = .wait id ∧ ∃ o, a = .outcome o := by
  cases call with
  | wait =>
    cases a with
    | outcome o => exact ⟨by rw [Deed.waited.inj (Option.some.inj h)], o, rfl⟩
    | _ => cases h
  | track =>
    cases a with
    | tracked => cases h
    | _ => cases h
  | _ => cases h

theorem Books.returned (h : g.Books s) (hp : WaitedFor g.deeds p) :
    ∃ id o, (.wait id, .outcome (some o)) ∈ g.history ∧ g.EndedWith p o := by
  obtain ⟨id, between, rest, ⟨before, hds, hbefore⟩, hbetween⟩ := hp
  rw [← List.cons_append, ← List.append_assoc] at hds
  obtain ⟨pre, call, a, post, hhistory, hpre, hd⟩ := deedsOf_split hds
  obtain ⟨rfl, outcome, rfl⟩ := of?_eq_waited hd
  have hkept : Kept (deedsOf pre) id p := ⟨between, ⟨before, hpre, hbefore⟩, hbetween⟩
  obtain ⟨_, ha, htold, -⟩ := h.told pre (.wait id) _ post hhistory
  cases ha
  obtain ⟨o, rfl, hended⟩ := htold p hkept
  exact ⟨id, o, by simp [hhistory], hended⟩

theorem Books.state (h : g.Books s) (hidle : g.inHand = none) (id : ProcessId) :
    ∃ seen, (g.step s (.call (.state id))).history = g.history ++ [(.state id, .state seen)] ∧
      (∀ p, Kept g.deeds id p →
        ∃ c : Charge, g.charges[p]? = some c ∧ seen = some c.watch.published) ∧
      ((∀ p, ¬ Kept g.deeds id p) → seen = none) := by
  have hkeeps := h.idle_keeps hidle
  refine ⟨(g.register.find? id).bind g.publishedAt, ?_, ?_, ?_⟩
  · simp only [step, hidle, Option.isSome_none, Bool.false_eq_true, ↓reduceIte]
    rfl
  · intro p hkept
    have hp : p < g.charges.length := by
      have hlt := (kept_iff.mp ⟨id, hkept⟩).1
      rwa [← h.ids, List.length_map] at hlt
    have hc : g.charges[p]? = some g.charges[p] := List.getElem?_eq_getElem hp
    exact ⟨_, hc, by rw [hkeeps.find?_eq hkept, Option.bind_some, publishedAt, hc, Option.map_some]⟩
  · intro hno
    cases hfind : g.register.find? id with
    | none => rfl
    | some p => exact absurd (hkeeps.kept hfind) (hno p)

-- ---------------------------------------------------------------------------
-- The accounts
-- ---------------------------------------------------------------------------

/-- What is known of all workloads that a supervisor has ever tracked. -/
structure Accounts (s : Settings) (g : Supervisor) : Prop where
  placed : g.charges.map Charge.id = trackedIds g.deeds
  shutdown : ∀ pre immediate a post, g.history = pre ++ (.shutdown immediate, a) :: post →
    ∃ places outcomes, a = .outcomes outcomes ∧ places.Nodup ∧
      (∀ p, p ∈ places ↔ p < (trackedIds (deedsOf pre)).length ∧
        ¬ WaitedFor (deedsOf pre) p ∧ ¬ Displaced (deedsOf pre) p) ∧
      List.Forall₂ g.EndedWith places outcomes
  wait : ∀ pre id a post, g.history = pre ++ (.wait id, a) :: post →
    ∃ outcome, a = .outcome outcome ∧
      (∀ p, Kept (deedsOf pre) id p → ∃ o, outcome = some o ∧ g.EndedWith p o) ∧
      ((∀ p, ¬ Kept (deedsOf pre) id p) → outcome = none)
  returned : ∀ p, WaitedFor g.deeds p →
    ∃ id o, (.wait id, .outcome (some o)) ∈ g.history ∧ g.EndedWith p o
  distinct : (trackedIds g.deeds).Nodup → ∀ p, ¬ Displaced g.deeds p
  state : g.inHand = none → ∀ id,
    ∃ seen, (g.step s (.call (.state id))).history = g.history ++ [(.state id, .state seen)] ∧
      (∀ p, Kept g.deeds id p →
        ∃ c : Charge, g.charges[p]? = some c ∧ seen = some c.watch.published) ∧
      ((∀ p, ¬ Kept g.deeds id p) → seen = none)
  /-- A workload whose watch has ended stays as it is, whatever happens. -/
  final : ∀ (p : Nat) (c : Charge), g.charges[p]? = some c → c.isFinished →
    (c.outcome c.watch.published).finalState = c.watch.published ∧
    ∀ more, ∃ c' : Charge, (play s g more).charges[p]? = some c' ∧ c'.isFinished ∧
      c'.watch = c.watch ∧ ∀ seen, c'.outcome seen = c.outcome seen
  refused : g.inHand = none → ∀ e now, g.step s (.call (.track (.error e) now)) =
    { g with history := g.history ++ [(.track (.error e) now, .refused e)] }
  answered : ∀ call stage, g.inHand = some (call, stage) → g.HaveEnded (g.concerned stage) →
    Answered s g call

/-- A workload that is tracked is lost only if it is displaced. -/
theorem accounts_for_tracked (s : Settings) (events : List SupervisorEvent) :
    Accounts s (play s {} events) where
  placed := (play_books s events).ids
  shutdown := by
    intro pre immediate a post h
    obtain ⟨places, outcomes, ha, hnodup, hmem, hended⟩ := (play_books s events).told _ _ _ _ h
    exact ⟨places, outcomes, ha, hnodup, fun p => (hmem p).trans kept_iff, hended⟩
  wait := fun _ _ _ _ h => (play_books s events).told _ _ _ _ h
  returned := fun _ hp => (play_books s events).returned hp
  distinct := fun h _ => not_displaced h
  state := fun hidle id => (play_books s events).state hidle id
  final := by
    intro p c hc hf
    refine ⟨((play_books s events).begun c (List.mem_of_getElem? hc)).finalState, fun more => ?_⟩
    obtain ⟨c', hc', hgo⟩ := play_later s _ more p c hc
    exact ⟨c', hc', hgo.isFinished hf, congrArg Watched.watch (hgo.ended hf).1, hgo.outcome hf⟩
  refused := by
    intro hidle e now
    simp only [step, hidle, Option.isSome_none, Bool.false_eq_true, ↓reduceIte, begin, reply]
  answered := fun _ _ hhand hended => answered_of_ended hhand hended

/-- The watch of a workload that ended by itself comes to its end, nobody waits for it, and its process number
is given again. -/
def reused : List SupervisorEvent :=
  let ends (place now : Nat) : List SupervisorEvent :=
    [.feed (.ends (some 0)), .feed (.waited (.collected (some 0))), .feed .take,
      .feed (.direct (.tick now (.ok [])))].map (.within place)
  [.call (.track (.ok ⟨100, 100⟩) 0)] ++ ends 0 1000 ++
    [.call (.track (.ok ⟨100, 100⟩) 5003)] ++ ends 1 6003 ++
    [.call (.state ⟨100, 100⟩), .call (.shutdown false)] ++ List.replicate 5 .proceed

theorem finished_displaced :
    ((play {} {} (reused.take 5)).charges.map fun c => (c.isFinished, c.watched.isAlive)) =
      [(true, false)] ∧
    (play {} {} reused).history.map (·.2) =
      [.tracked ⟨100, 100⟩, .tracked ⟨100, 100⟩, .state (some .gone),
        .outcomes [⟨⟨100, 100⟩, .gone, some 0, false⟩]] ∧
    (∀ p, ¬ WaitedFor (play {} {} reused).deeds p) ∧ Displaced (play {} {} reused).deeds 0 := by
  have hdeeds : (play {} {} reused).deeds = [.tracked ⟨100, 100⟩, .tracked ⟨100, 100⟩] := by
    decide +kernel
  refine ⟨by decide +kernel, by decide +kernel, ?_, ?_⟩
  · rintro p ⟨id, between, rest, ⟨before, hsplit, -⟩, -⟩
    have hmem : Deed.waited id ∈ (play {} {} reused).deeds := by simp [hsplit]
    simp [hdeeds] at hmem
  · exact ⟨⟨100, 100⟩, [], [], ⟨[], hdeeds, rfl⟩, by simp⟩

end Vigil.Supervisor
