import Pdp8.Instruction
import Pdp8.Teletype.Line

/-!
# Pdp8.Fault — conditions that end the simulation

A failed teletype line cannot be recovered from inside the machine.  The remaining fault would
mean that a cycle was asked to work on an instruction that has no such cycle.
-/

namespace Pdp8

/-- Why the machine cannot go on. -/
inductive Fault
  | printerLine (failure : LineFailure)
  | keyboardLine (failure : LineFailure)
  /-- The instruction has no execute cycle. -/
  | noExecuteCycle (instruction : Instruction)
  deriving DecidableEq, Repr

/-- The wording of a fault. -/
def Fault.message : Fault → String
  | .printerLine failure => "teletype printer channel failed: " ++ failure.message
  | .keyboardLine failure => "teletype keyboard channel failed: " ++ failure.message
  | .noExecuteCycle _ => "the instruction has no execute cycle"

end Pdp8
