import Vigil.Rehearsal.Task

/-!
# A rehearsal

Programs on a scripted host, the supervisor that tracks them, and an operator who gives it orders one
after the other. Time stands still as long as anything is due and then jumps to the next time at which
something is. The order of what is due at one time is fixed: the workloads first, in the order in which
they were started, and the operator last.
-/

namespace Vigil.Rehearsal

inductive Order where
  | track (command : List String)
  | state (pid : Int)
  | reset (pid : Int)
  | shutdown (immediate : Bool)
  | wait (pid : Int)
  | finish (immediate : Bool)
  | drop
  deriving DecidableEq, Repr

structure Setup where
  settings : Settings
  /-- What a command's first word launches, or why it cannot. -/
  programs : List (String × Except LaunchError Program)
  orders : List (Nat × Order)
  passthrough : Bool
  echoBudget : Option Nat
  faults : List ProbeFault
  deaf : Bool

structure World where
  setup : Setup
  now : Nat := 0
  around : Surroundings
  tasks : List Task := []
  register : Register Nat := {}
  inHand : Option (SupervisorCall × CallStage) := none
  history : List (SupervisorCall × SupervisorAnswer) := []
  orders : List (Nat × Order)
  answers : List (Nat × SupervisorAnswer) := []

namespace World

def init (setup : Setup) : World :=
  { setup
    orders := setup.orders
    around :=
      { host := { faults := setup.faults, deaf := setup.deaf }
        echo := { budget := setup.echoBudget } } }

def idOf (pid : Int) : ProcessId := ⟨pid, pid⟩

def supervisor (w : World) : Supervisor :=
  { charges := w.tasks.map (·.toCharge), register := w.register, inHand := w.inHand, history := w.history }

def reply (w : World) (a : SupervisorAnswer) : World :=
  { w with answers := w.answers ++ [(w.now, a)], orders := w.orders.drop 1 }

/-- The supervisor has done something. If that answered a call, the next order can come. -/
def settle (w : World) (g : Supervisor) : World :=
  let tasks := w.tasks.zipWith (fun t c => { t with toCharge := c }) g.charges
  let w' := { w with tasks, register := g.register, inHand := g.inHand, history := g.history }
  match g.history[w.history.length]? with
  | some (_, a) => w'.reply a
  | none => w'

def call (w : World) (c : SupervisorCall) : World := w.settle (w.supervisor.begin w.setup.settings c)

def launch (w : World) : List String → Except LaunchError Program
  | [] => .error .emptyCommand
  | program :: _ =>
    match w.setup.programs.lookup program with
    | some result => result
    | none => .error (.spawn program .notFound)

def spawn (w : World) (program : Program) : World :=
  { w with around := { w.around with host := w.around.host.spawn (program.process :: program.extra) } }

def attach (w : World) (program : Program) : World :=
  let pid := program.process.pid
  let place := w.around.host.placeOf pid
  let task := Task.start w.setup.settings pid program place w.setup.passthrough w.now
  let (task, around) :=
    if task.broken then (task, w.around) else task.tick w.setup.settings w.now w.around
  let w := w.call (.track (.ok (idOf pid)) w.now)
  { w with around, tasks := w.tasks ++ [task] }

def track (w : World) (command : List String) : World :=
  match w.launch command with
  | .error e => w.call (.track (.error e) w.now)
  | .ok program =>
    let w := w.spawn program
    if program.showsPid then w.attach program
    else w.call (.track (.error (.noPid (command.headD ""))) w.now)

def begin (w : World) : Order → World
  | .track command => w.track command
  | .state pid => w.call (.state (idOf pid))
  | .reset pid => w.call (.reset (idOf pid))
  | .shutdown immediate => w.call (.requestShutdown immediate)
  | .wait pid => w.call (.wait (idOf pid))
  | .finish immediate => w.call (.shutdown immediate)
  | .drop => (w.settle (w.supervisor.step w.setup.settings .letGo)).reply (.outcomes [])

def operate? (w : World) : Option World :=
  match w.inHand, w.orders with
  | some _, _ => w.supervisor.proceed?.map w.settle
  | none, (t, order) :: _ => if t ≤ w.now then some (w.begin order) else none
  | none, [] => none

def advanceTasks? (w : World) : Nat → List Task → Option World
  | _, [] => none
  | place, t :: rest =>
    match t.advance? w.setup.settings w.now w.around with
    | some (t, around) => some { w with tasks := w.tasks.set place t, around }
    | none => advanceTasks? w (place + 1) rest

def timers (w : World) : List Nat :=
  let order := match w.inHand, w.orders with
    | none, (t, _) :: _ => [t]
    | _, _ => []
  order ++ w.tasks.flatMap (·.timers w.around.host)

/-- One step: something that is due, else a jump to the next time, else nothing is left to do. -/
def step (w : World) : Option World :=
  (w.advanceTasks? 0 w.tasks).or <| w.operate?.or <|
    (w.timers.min?).map fun t => { w with now := max t w.now }

def run : Nat → World → World
  | 0, w => w
  | fuel + 1, w =>
    match w.step with
    | some next => run fuel next
    | none => w

def stepLimit : Nat := 3000000

def playFor (steps : Nat) (setup : Setup) : World := run steps (init setup)

def play (setup : Setup) : World := playFor stepLimit setup

def diagnosesByPid (w : World) : List (List (Nat × Diagnosis)) :=
  let pids := ((w.around.diagnoses.map (·.2.process.pid)).eraseDups).mergeSort (· ≤ ·)
  pids.map fun pid => w.around.diagnoses.filter fun d => d.2.process.pid = pid

end World

end Vigil.Rehearsal
