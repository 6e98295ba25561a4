import Vigil.Watch.Basic

/-!
# A watch and what feeds it

A tracked process lives until it ends. Its streams bring lines, a meter looks at its tree from time to
time, and somebody waits for its exit; what they bring stands in a queue until the watch takes it. Ticks,
commands, the turns of a reap and the end of a drain reach the watch without queueing. An event that
cannot happen in a state changes nothing, so every list of events is an interleaving of them all.
-/

namespace Vigil

inductive WaitResult where
  /-- Its exit was collected. There is no code if a signal killed it. -/
  | collected (code : Option Int)
  | failed
  deriving DecidableEq, Repr

namespace WatchEvent

def ofWait : WaitResult → WatchEvent
  | .collected code => .exited code
  | .failed => .exited none

/-- What is brought after a look at the process tree. The look that lays the baseline brings nothing. -/
def ofSample? : Except SampleError (Option Reading) → Option WatchEvent
  | .ok r => r.map .reading
  | .error e => some (.sampleFailed e)

def isDirect : WatchEvent → Bool
  | .tick .. | .reset _ | .shutdown _ | .commandsEnded | .turn .. | .drained => true
  | _ => false

end WatchEvent

inductive WatchedEvent where
  | line (time : Nat) (line : OutputLine)
  | look (now : Nat) (tree : TreeProbe)
  | ends (code : Option Int)
  | waited (result : WaitResult)
  | take
  | direct (e : WatchEvent)

def WatchedEvent.isFeed : WatchedEvent → Bool
  | .direct e => e.isFeed
  | _ => true

structure Watched where
  watch : Watch
  ended : Option (Option Int) := none
  meter : Meter := {}
  waitOver : Bool := false
  queue : List WatchEvent := []

namespace Watched

def start (s : Settings) (id : ProcessId) (now : Nat) : Watched := { watch := .start s id now }

def isAlive (w : Watched) : Bool := w.ended.isNone

def bring (w : Watched) (e : WatchEvent) : Watched := { w with queue := w.queue ++ [e] }

def look (w : Watched) (now : Nat) (tree : TreeProbe) : Watched :=
  if w.meter.gone then w
  else
    let (meter, result) := w.meter.sample now tree
    let w := { w with meter }
    match WatchEvent.ofSample? result with
    | some e => w.bring e
    | none => w

def finishWait (w : Watched) (result : WaitResult) : Watched :=
  let possible : Bool :=
    match result with
    | .collected code => w.ended = some code
    | .failed => true
  if possible && !w.waitOver then { w with waitOver := true }.bring (.ofWait result) else w

def endWith (w : Watched) (code : Option Int) : Watched := { w with ended := some (w.ended.getD code) }

def serve (s : Settings) (w : Watched) (e : WatchEvent) :
    Except SpanOverflow (Watched × List WatchEffect) :=
  (w.watch.step s e).map fun (watch, effects) => ({ w with watch }, effects)

def take (s : Settings) (w : Watched) : Except SpanOverflow (Watched × List WatchEffect) :=
  match w.queue with
  | e :: rest =>
    if w.watch.phase = .serving || w.watch.phase = .draining then { w with queue := rest }.serve s e
    else .ok (w, [])
  | [] => .ok (w, [])

def step (s : Settings) (w : Watched) :
    WatchedEvent → Except SpanOverflow (Watched × List WatchEffect)
  | .line time l => .ok (w.bring (.line time l), [])
  | .look now tree => .ok (w.look now tree, [])
  | .ends code => .ok (w.endWith code, [])
  | .waited result => .ok (w.finishWait result, [])
  | .take => w.take s
  | .direct e => if e.isDirect then w.serve s e else .ok (w, [])

end Watched

end Vigil
