import Pdp8.Runner

/-!
# Pdp8.Runner.Interleaving — a client and its workers in any order

A client's call is a row of actions, some of which decide what is left to be done.  Between any two
actions every worker may take turns, so a history is a list of moves, each of them the client's or
a worker's.  A move is impossible when it is the client's and the client has to wait for a worker,
or has no call to go on with.
-/

namespace Pdp8.Runner

/-- An action of a client. -/
inductive ClientAction
  | accept (v : PinVector)
  | press (keys : Keys)
  | halt
  | stepOnce
  | requestInterrupt
  /-- Read the pins or the registers. -/
  | look
  | spawn
  /-- Wait for the worker. -/
  | join
  deriving DecidableEq, Repr

/-- A call that a client makes. -/
inductive Call
  | writePins (v : PinVector)
  | singleStep
  | stop
  | wait
  | requestInterrupt
  | look
  deriving DecidableEq, Repr

/-- The actions that a call begins with. -/
def Call.actions : Call → List ClientAction
  | .writePins v => [.accept v]
  | .singleStep => [.halt, .join, .stepOnce]
  | .stop => [.halt, .join]
  | .wait => [.join]
  | .requestInterrupt => [.requestInterrupt]
  | .look => [.look]

/-- What is left to be done when the pins have been taken in. -/
def afterAccept (write : PinWrite) : List ClientAction :=
  (if write.stopRequested then [.join] else []) ++ [.press write.keys]

/-- What is left to be done when the keys have acted. -/
def afterPress (start : Bool) : List ClientAction := if start then [.join, .spawn] else []

/-- An action of the client, and what it adds to what is left to be done; `none` while the client
has to wait. -/
def act (r : Runner) : ClientAction → Option (Except Fault (List ClientAction × Runner))
  | .accept v => let (write, r) := r.accept v; some (.ok (afterAccept write, r))
  | .press keys =>
    match r.press keys with
    | .error f => some (.error f)
    | .ok (start, r) => some (.ok (afterPress start, r))
  | .halt => some (.ok ([], r.halt))
  | .stepOnce =>
    match r.stepOnce with
    | .error f => some (.error f)
    | .ok (_, r) => some (.ok ([], r))
  | .requestInterrupt => some (.ok ([], r.requestInterrupt))
  | .look => some (.ok ([], r))
  | .spawn => some (.ok ([], r.spawn))
  | .join => if r.mustWait then none else some (.ok ([], r.dismiss))

/-- A machine with its workers, and what is left to be done of the client's call. -/
structure Scene where
  runner : Runner
  todo : List ClientAction

/-- Who does something next. -/
inductive Move
  /-- The client makes a call, its last one being done. -/
  | call (c : Call)
  /-- The client goes on with its call. -/
  | client
  | worker (i : Nat)
  deriving DecidableEq, Repr

/-- One move, if it is possible. -/
def Scene.move? (s : Scene) : Move → Option (Except Fault Scene)
  | .call c => if s.todo.isEmpty then some (.ok { s with todo := c.actions }) else none
  | .client =>
    match s.todo with
    | [] => none
    | a :: rest =>
      match s.runner.act a with
      | none => none
      | some (.error f) => some (.error f)
      | some (.ok (more, r)) => some (.ok ⟨r, more ++ rest⟩)
  | .worker i =>
    if s.runner.isAlive i then
      match s.runner.turn i with
      | .error f => some (.error f)
      | .ok r => some (.ok { s with runner := r })
    else none

/-- A history of moves, as far as a fault lets it go; `none` if one of them is impossible. -/
def Scene.follow? : List Move → Scene → Option (Except Fault Scene)
  | [], s => some (.ok s)
  | m :: ms, s =>
    match s.move? m with
    | none => none
    | some (.error f) => some (.error f)
    | some (.ok s) => s.follow? ms

end Pdp8.Runner
