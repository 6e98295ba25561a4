import Vigil.Watch.Feeders
import Vigil.Watch.Launch

/-!
# The supervisor

It keeps a register of the workloads that are tracked, hands commands over to their watches and collects
how these ended. One call is in hand at a time; the watches go on meanwhile, each by itself. A supervisor's
state includes that of all watches it has ever begun, and an event that cannot happen in a state changes
nothing, so every list of events is an interleaving of the calls with what the watches do.
-/

namespace Vigil

/-! ## The register -/

/-- Tracked workloads in the order in which they were filed; `η` is how a workload is reached. A workload is
filed under its identity, in place of any other of that identity. -/
structure Register (η : Type) where
  entries : List (ProcessId × η) := []
  deriving DecidableEq, Repr

namespace Register

variable {η : Type}

def find? (r : Register η) (id : ProcessId) : Option η := r.entries.lookup id

def insert (r : Register η) (id : ProcessId) (h : η) : Register η :=
  { entries := r.entries.filter (fun e => e.1 ≠ id) ++ [(id, h)] }

def erase (r : Register η) (id : ProcessId) : Register η :=
  { entries := r.entries.filter fun e => e.1 ≠ id }

def handles (r : Register η) : List η := r.entries.map (·.2)

end Register

/-! ## One workload -/

inductive WatchCommand where
  | reset
  | shutdown (immediate : Bool)
  deriving DecidableEq, Repr

def WatchCommand.event (now : Nat) : WatchCommand → WatchEvent
  | .reset => .reset now
  | .shutdown immediate => .shutdown immediate

def commandRoom : Nat := 8

structure Charge where
  watched : Watched
  broken : Bool := false
  commands : List WatchCommand := []
  commandsEnded : Bool := false
  escalated : Bool := false

inductive ChargeEvent where
  | feed (e : WatchedEvent)
  | reapTurn (now : Nat) (group : GroupProbe)
  | obey (now : Nat)

namespace Charge

def start (s : Settings) (id : ProcessId) (now : Nat) : Charge :=
  { watched := .start s id now, broken := !Watch.canStart s }

def watch (c : Charge) : Watch := c.watched.watch

def id (c : Charge) : ProcessId := c.watch.id

def isFinished (c : Charge) : Bool := c.broken || c.watch.phase == .finished

/-- How the watch ended, for one who saw the state `seen` when the wait for its end began. -/
def outcome (c : Charge) (seen : Health) : WatchOutcome :=
  if c.broken then Watch.brokenOutcome c.id seen else c.watch.outcome

def serve (s : Settings) (c : Charge) (e : WatchedEvent) : Charge × List WatchEffect :=
  match c.watched.step s e with
  | .ok (watched, effects) => ({ c with watched }, effects)
  | .error _ => ({ c with broken := true }, [])

def obey (s : Settings) (c : Charge) (now : Nat) : Charge × List WatchEffect :=
  match c.watch.phase, c.commands with
  | .serving, k :: rest => { c with commands := rest }.serve s (.direct (k.event now))
  | .serving, [] => if c.commandsEnded then c.serve s (.direct .commandsEnded) else (c, [])
  | _, _ => (c, [])

def step (s : Settings) (c : Charge) : ChargeEvent → Charge × List WatchEffect
  | .feed e => if e.isFeed then c.serve s e else (c, [])
  | .reapTurn now group => c.serve s (.direct (.turn now group c.escalated))
  | .obey now => c.obey s now

end Charge

/-! ## All workloads -/

inductive SupervisorCall where
  | track (launched : Except LaunchError ProcessId) (now : Nat)
  | state (id : ProcessId)
  | reset (id : ProcessId)
  | requestShutdown (immediate : Bool)
  | wait (id : ProcessId)
  | shutdown (immediate : Bool)

inductive SupervisorAnswer where
  | tracked (id : ProcessId)
  | refused (error : LaunchError)
  | state (state : Option Health)
  | accepted (ok : Bool)
  | nothing
  | outcome (outcome : Option WatchOutcome)
  | outcomes (outcomes : List WatchOutcome)
  deriving DecidableEq, Repr

inductive CallStage where
  | resetting (place : Nat)
  | sending (left : List (Nat × WatchCommand)) (finishing : Bool)
  /-- Watches whose end is awaited, the state that was seen when the wait for the first of them began, and
  the outcomes so far. -/
  | joining (left : List Nat) (seen : Option Health) (outcomes : List WatchOutcome) (finishing : Bool)
  deriving DecidableEq

structure Supervisor where
  charges : List Charge := []
  register : Register Nat := {}
  inHand : Option (SupervisorCall × CallStage) := none
  history : List (SupervisorCall × SupervisorAnswer) := []

inductive SupervisorEvent where
  /-- A call is made, if none is in hand. Nothing is called after a shutdown, which uses the supervisor
  up. -/
  | call (c : SupervisorCall)
  | proceed
  | within (place : Nat) (e : ChargeEvent)
  | letGo

namespace Supervisor

def reply (g : Supervisor) (c : SupervisorCall) (a : SupervisorAnswer) : Supervisor :=
  { g with inHand := none, history := g.history ++ [(c, a)] }

def publishedAt (g : Supervisor) (place : Nat) : Option Health :=
  g.charges[place]?.map (·.watch.published)

def outcome? (g : Supervisor) (place : Nat) (seen : Health) : Option WatchOutcome :=
  match g.charges[place]? with
  | some c => if c.isFinished then some (c.outcome seen) else none
  | none => none

def alter (g : Supervisor) (place : Nat) (f : Charge → Charge) : Supervisor :=
  match g.charges[place]? with
  | some c => if c.isFinished then g else { g with charges := g.charges.set place (f c) }
  | none => g

def endCommands (g : Supervisor) (place : Nat) : Supervisor :=
  g.alter place fun c => { c with commandsEnded := true }

/-- Files a workload under its identity. Another one that was filed there is reached no more. -/
def file (g : Supervisor) (c : Charge) : Supervisor :=
  let g' := match g.register.find? c.id with
    | some displaced => g.endCommands displaced
    | none => g
  { g' with charges := g'.charges ++ [c], register := g.register.insert c.id g.charges.length }

/-- Hands a command over to a watch. Says whether the watch is there to take it; nothing if it has no room
for it yet. -/
def send (g : Supervisor) (place : Nat) (k : WatchCommand) : Supervisor × Option Bool :=
  match g.charges[place]? with
  | none => (g, some false)
  | some c =>
    if c.isFinished then (g, some false)
    else if c.commands.length < commandRoom then
      ({ g with charges := g.charges.set place { c with commands := c.commands ++ [k] } }, some true)
    else (g, none)

def escalate? (g : Supervisor) (place : Nat) (k : WatchCommand) : Option Supervisor :=
  match g.charges[place]? with
  | some c =>
    if k = .shutdown true && !c.escalated then
      some { g with charges := g.charges.set place { c with escalated := true } }
    else none
  | none => none

def begin (s : Settings) (g : Supervisor) (c : SupervisorCall) : Supervisor :=
  match c with
  | .track (.error e) _ => g.reply c (.refused e)
  | .track (.ok id) now => (g.file (.start s id now)).reply c (.tracked id)
  | .state id => g.reply c (.state ((g.register.find? id).bind g.publishedAt))
  | .reset id =>
    match g.register.find? id with
    | some place => { g with inHand := some (c, .resetting place) }
    | none => g.reply c (.accepted false)
  | .requestShutdown immediate =>
    { g with inHand := some (c, .sending (g.register.handles.map (·, .shutdown immediate)) false) }
  | .wait id =>
    match g.register.find? id with
    | some place =>
      { g with register := g.register.erase id, inHand := some (c, .joining [place] none [] false) }
    | none => g.reply c (.outcome none)
  | .shutdown immediate =>
    { g with inHand := some (c, .sending (g.register.handles.map (·, .shutdown immediate)) true) }

def proceed? (g : Supervisor) : Option Supervisor :=
  match g.inHand with
  | none => none
  | some (c, .resetting place) =>
    match g.send place .reset with
    | (g, some ok) => some (g.reply c (.accepted ok))
    | (_, none) => none
  | some (c, .sending [] false) => some (g.reply c .nothing)
  | some (c, .sending [] true) =>
    some { g with inHand := some (c, .joining g.register.handles none [] true) }
  | some (c, .sending ((place, k) :: left) finishing) =>
    (g.escalate? place k).or <|
      match g.send place k with
      | (g, some _) => some { g with inHand := some (c, .sending left finishing) }
      | (_, none) => none
  | some (c, .joining [] _ outcomes true) => some (g.reply c (.outcomes outcomes))
  | some (c, .joining [] _ outcomes false) => some (g.reply c (.outcome outcomes.head?))
  | some (c, .joining (place :: left) none outcomes finishing) =>
    let seen := (g.publishedAt place).getD .healthy
    some { g with inHand := some (c, .joining (place :: left) (some seen) outcomes finishing) }
  | some (c, .joining (place :: left) (some seen) outcomes finishing) =>
    (g.outcome? place seen).map fun o =>
      { g with inHand := some (c, .joining left none (outcomes ++ [o]) finishing) }

def step (s : Settings) (g : Supervisor) : SupervisorEvent → Supervisor
  | .call c => if g.inHand.isSome then g else g.begin s c
  | .proceed => g.proceed?.getD g
  | .within place e => g.alter place fun c => (c.step s e).1
  | .letGo => { g with charges := g.charges.map fun c => { c with commandsEnded := true } }

def play (s : Settings) (g : Supervisor) (events : List SupervisorEvent) : Supervisor :=
  events.foldl (step s) g

end Supervisor

end Vigil
