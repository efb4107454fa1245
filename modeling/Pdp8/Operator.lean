import Pdp8.Image
import Pdp8.Runner

/-!
# Pdp8.Operator — someone at the front panel

An operator works a machine through its pins alone: every action is a list of settings, each of
which gives one signal a value and writes the pins.  So the operator presses keys and lets go of
them, selects addresses, deposits blocks of words and starts programs.
-/

namespace Pdp8

/-- A signal and the value it is set to. -/
abbrev Setting := Signal × Nat

namespace Setting

/-- Press a key and let go of it. -/
def press (key : Signal) : List Setting := [(key, 1), (key, 0)]

/-- Deposit words one after another. -/
def deposit (words : List Nat) : List Setting :=
  words.flatMap fun w => (.switchRegister, w) :: press .deposit

/-- Set the switch register to a location and press LOAD ADDRESS. -/
def select (location : Nat) : List Setting :=
  (.switchRegister, location) :: press .loadAddress

/-- Select an address with the field switches, the switch register and LOAD ADDRESS. -/
def loadAddress (a : Address) : List Setting :=
  [(.instField, a.field.toNat), (.dataField, a.field.toNat)] ++ select a.location.toNat

/-- Deposit a block at its start. -/
def load (b : Block) : List Setting :=
  loadAddress b.start ++ deposit (b.words.map BitVec.toNat)

/-- Start the program at an address. -/
def startAt (a : Address) : List Setting := loadAddress a ++ press .start

end Setting

/-- A machine, and the pins as its operator holds them. -/
structure Operator where
  runner : Runner
  pins : PinVector

namespace Operator

/-- An operator who has touched nothing yet. -/
def ofRunner (r : Runner) : Operator := ⟨r, .off r.machine.panel.table.pinCount⟩

/-- Hold the pins otherwise, without writing them. -/
def hold (s : Setting) (op : Operator) : Operator :=
  { op with pins := op.runner.machine.panel.table.spread s.1 s.2 op.pins }

/-- Write the pins. -/
def write (op : Operator) : Except Fault Operator :=
  match op.runner.writePins op.pins with
  | .error f => .error f
  | .ok runner => .ok { op with runner := runner }

/-- Make some settings, one after another. -/
def apply : List Setting → Operator → Except Fault Operator
  | [], op => .ok op
  | s :: rest, op =>
    match (op.hold s).write with
    | .error f => .error f
    | .ok op => op.apply rest

/-- Deposit blocks in order. -/
def load (blocks : List Block) (op : Operator) : Except Fault Operator :=
  op.apply (blocks.flatMap Setting.load)

/-- Wait until the machine halts, for at most `fuel` turns of its worker. -/
def wait (fuel : Nat) (op : Operator) : Except Fault Operator :=
  match op.runner.wait fuel with
  | .error f => .error f
  | .ok runner => .ok { op with runner := runner }

/-- Report an event. -/
def report (event : Event) (op : Operator) : Operator :=
  { op with runner := op.runner.onMachine (Machine.report event) }

end Operator

end Pdp8
