import Pdp8.Machine

/-!
# Pdp8.Runner — a machine and the workers that run it

A running machine is stepped by a worker, side by side with the client who operates the panel.
Whoever steps the machine or looks at it holds its lock, so everything happens in actions that
nothing comes between: `turn` is a worker's, and `accept`, `press`, `halt`, `stepOnce`, `spawn` and
`dismiss` are the client's.  The calls that a client makes are made of these actions.  Here a
worker takes its turns only while the client waits for it; `Pdp8.Runner.Interleaving` allows all
other orders.
-/

namespace Pdp8

/-- How far a worker has got. -/
inductive WorkerPhase
  /-- It has done nothing yet. -/
  | spawned
  /-- It goes on stepping the machine. -/
  | working
  /-- It has left, and never steps the machine again. -/
  | gone
  deriving DecidableEq, Repr

/-- A machine and its workers. -/
structure Runner where
  machine : Machine
  /-- Every worker there has been, the first one first. -/
  workers : List WorkerPhase
  /-- The number of the worker that the client has not yet waited for. -/
  awaited : Option Nat

namespace Runner

/-- A machine without a worker. -/
def ofMachine (m : Machine) : Runner := ⟨m, [], none⟩

/-- A newly built machine. -/
def powerUp (setup : Setup) (table : PinTable) (keyboard : Keyboard) (sink : Sink)
    (clock : Clock) : Runner :=
  ofMachine (.powerUp setup table (.powerUp setup.charsPerSecond keyboard sink) clock)

/-- A newly built machine, if its configuration is in range. -/
def build (setup : Setup) (table : PinTable) (keyboard : Keyboard) (sink : Sink) (clock : Clock) :
    Except SetupError Runner :=
  match setup.validate with
  | .error e => .error e
  | .ok () => .ok (powerUp setup table keyboard sink clock)

/-- Do something to the machine that cannot fail. -/
def onMachine (f : Machine → Machine) (r : Runner) : Runner := { r with machine := f r.machine }

/-! ### What a worker does -/

/-- Whether worker `i` may still step the machine. -/
def isAlive (i : Nat) (r : Runner) : Bool :=
  match r.workers[i]? with
  | none => false
  | some phase => phase != .gone

/-- Worker `i` gets to a phase, and reports it. -/
def enter (i : Nat) (phase : WorkerPhase) (event : Event) (r : Runner) : Runner :=
  { r with machine := r.machine.report event, workers := r.workers.set i phase }

/-- Worker `i` leaves. -/
def leave (i : Nat) (r : Runner) : Runner := r.enter i .gone .workerFinished

/-- One turn of worker `i`: a step of the machine, unless the worker has only just been spawned.
It leaves when it finds the machine stopped, before its step or after it. -/
def turn (i : Nat) (r : Runner) : Except Fault Runner :=
  match r.workers[i]? with
  | some .spawned => .ok (r.enter i .working .workerStarted)
  | some .working =>
    if r.machine.running then
      match r.machine.step with
      | .error f => .error f
      | .ok (outcome, m) =>
        let r := { r with machine := m }
        .ok (if outcome = .halted ∨ r.machine.running = false then r.leave i else r)
    else .ok (r.leave i)
  | _ => .ok r

/-! ### What a client does -/

/-- Take in a write of the pins. -/
def accept (v : PinVector) (r : Runner) : PinWrite × Runner :=
  let (write, m) := r.machine.acceptPins v
  (write, { r with machine := m })

/-- Act on the keys that went down; the result is whether a worker is to be spawned. -/
def press (keys : Keys) (r : Runner) : Except Fault (Bool × Runner) :=
  match r.machine.pressKeys keys with
  | .error f => .error f
  | .ok (start, m) => .ok (start, { r with machine := m })

/-- Stop the machine. -/
def halt (r : Runner) : Runner := r.onMachine Machine.stop

/-- Carry the machine through one major state. -/
def stepOnce (r : Runner) : Except Fault (Outcome × Runner) :=
  match r.machine.step with
  | .error f => .error f
  | .ok (outcome, m) => .ok (outcome, { r with machine := m })

/-- Latch an interrupt request. -/
def requestInterrupt (r : Runner) : Runner := r.onMachine Machine.requestInterrupt

/-- Spawn a worker. -/
def spawn (r : Runner) : Runner :=
  { r with workers := r.workers ++ [.spawned], awaited := some r.workers.length }

/-- Whether the client would have to wait for a worker to leave. -/
def mustWait (r : Runner) : Bool :=
  match r.awaited with
  | none => false
  | some i => r.isAlive i

/-- Have done with the worker that was waited for. -/
def dismiss (r : Runner) : Runner := { r with awaited := none }

/-! ### Calls -/

/-- At most `fuel` turns of the worker that the client has not yet waited for. -/
def work : Nat → Runner → Except Fault Runner
  | 0, r => .ok r
  | fuel + 1, r =>
    match r.awaited with
    | none => .ok r
    | some i =>
      if r.isAlive i then
        match r.turn i with
        | .error f => .error f
        | .ok r => work fuel r
      else .ok r

/-- Whether the worker that the client has not yet waited for has begun, and has not left. -/
def isWorking (r : Runner) : Bool :=
  match r.awaited with
  | none => false
  | some i => r.workers[i]? == some .working

/-- Let the worker get on with it, for at most `fuel` turns; a fault is left for a wait to meet. -/
def settle (fuel : Nat) (r : Runner) : Runner :=
  match r.work fuel with
  | .error _ => r
  | .ok r => r

/-- Wait until the worker has left, for at most `fuel` of its turns. -/
def join (fuel : Nat) (r : Runner) : Except Fault Runner :=
  match r.work fuel with
  | .error f => .error f
  | .ok r => .ok (if r.mustWait then r else r.dismiss)

/-- A worker that finds the machine stopped is gone after so many turns. -/
def leavingTurns : Nat := 2

/-- Write the pins: a write that stops the machine waits for the worker before the keys act, and
START or CONTINUE may spawn a worker. -/
def writePins (v : PinVector) (r : Runner) : Except Fault Runner := do
  let (write, r) := r.accept v
  let r ← if write.stopRequested then r.join leavingTurns else .ok r
  let (start, r) ← r.press write.keys
  if start then
    let r ← r.join leavingTurns
    return r.spawn
  else return r

/-- Stop the machine, and wait for the worker to leave. -/
def stop (r : Runner) : Except Fault Runner := r.halt.join leavingTurns

/-- Stop the machine, then carry it through one major state. -/
def singleStep (r : Runner) : Except Fault (Outcome × Runner) := do
  let r ← r.stop
  r.stepOnce

/-- Wait until the machine stops of its own accord, for at most `fuel` turns of its worker. -/
def wait (fuel : Nat) (r : Runner) : Except Fault Runner := r.join fuel

end Runner

end Pdp8
