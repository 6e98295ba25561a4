import Vigil.Process.Usage

/-!
# A scripted host

The processes of a rehearsal and how they end: by themselves at a set time, or a set time after a signal
to their group. Time is given with every question, so a host needs no clock. A host can be scripted to
answer probes wrongly for a while, and to lose signals. Processes are never forgotten, and a process
number stands for the first process that had it, even when it is given again; a group is all processes of
its number.
-/

namespace Vigil.Rehearsal

structure Actor where
  pid : Int
  pgid : Int
  /-- How long after the polite signal it ends; none if it survives. -/
  termDelay : Option Nat := some 0
  killDelay : Option Nat := some 0
  exitAt : Option Nat := none
  exitCode : Option Int := some 0
  deriving DecidableEq, Repr

structure Death where
  time : Nat
  code : Option Int
  deriving DecidableEq, Repr

structure ScriptedProcess where
  actor : Actor
  death : Option Death
  deriving DecidableEq, Repr

namespace ScriptedProcess

def ofActor (a : Actor) : ScriptedProcess :=
  { actor := a, death := a.exitAt.map fun t => ⟨t, a.exitCode⟩ }

def aliveAt (p : ScriptedProcess) (now : Nat) : Bool := p.death.all fun d => now < d.time

def dieBy (p : ScriptedProcess) (d : Death) : ScriptedProcess :=
  if p.death.all fun due => d.time < due.time then { p with death := some d } else p

def signalled (p : ScriptedProcess) (s : Signal) (now : Nat) : ScriptedProcess :=
  let delay := match s with
    | .terminate => p.actor.termDelay
    | .kill => p.actor.killDelay
  match delay with
  | none => p
  | some ms => p.dieBy ⟨now + ms, none⟩

end ScriptedProcess

/-- From one time up to but not including another, every look at a group fails. -/
structure ProbeFault where
  start : Nat
  stop : Nat
  error : ProbeError
  deriving DecidableEq, Repr

structure SentSignal where
  time : Nat
  pgid : Int
  signal : Signal
  deriving DecidableEq, Repr

structure Host where
  processes : List ScriptedProcess := []
  faults : List ProbeFault := []
  deaf : Bool := false
  sent : List SentSignal := []
  deriving DecidableEq, Repr

namespace Host

/-- Where the process of a number is found. -/
def placeOf (h : Host) (pid : Int) : Nat := h.processes.findIdx (·.actor.pid = pid)

def isAlive (h : Host) (pid : Int) (now : Nat) : Bool :=
  h.processes[h.placeOf pid]?.any (·.aliveAt now)

def groupMembers (h : Host) (pgid : Int) (now : Nat) : GroupProbe :=
  match h.faults.find? fun f => f.start ≤ now && now < f.stop with
  | some f => .error f.error
  | none =>
    .ok ((h.processes.filter fun p => p.actor.pgid = pgid && p.aliveAt now).map (·.actor.pid))

def signalGroup (h : Host) (pgid : Int) (s : Signal) (now : Nat) : Host :=
  let deliver (p : ScriptedProcess) : ScriptedProcess :=
    if p.actor.pgid = pgid && p.aliveAt now then p.signalled s now else p
  { h with
    processes := if h.deaf then h.processes else h.processes.map deliver
    sent := h.sent ++ [⟨now, pgid, s⟩] }

def spawn (h : Host) (actors : List Actor) : Host :=
  { h with processes := h.processes ++ actors.map .ofActor }

def deathOf (h : Host) (place : Nat) : Option Death := (h.processes[place]?).bind (·.death)

def signals (h : Host) : List SentSignal :=
  h.sent.mergeSort fun a b => a.time < b.time || (a.time = b.time && a.pgid ≤ b.pgid)

end Host

end Vigil.Rehearsal
