import Pdp8.Event
import Pdp8.IotResponse

/-!
# Pdp8.Extension — memory fields and interrupts

The memory extension holds the field registers and the interrupt system, which belong together:
an interrupt saves and clears the fields, and a change of instruction field holds interrupts off
until the jump that completes it.  ION is delayed: interrupts come on at the second fetch after
it, so the instruction that follows always runs.
-/

namespace Pdp8

/-- The transfers of the memory extension. -/
inductive ExtensionCommand
  /-- Change the data field. -/
  | cdf (n : FieldNumber)
  /-- Change the instruction field at the next jump. -/
  | cif (n : FieldNumber)
  /-- Change both. -/
  | cdfCif (n : FieldNumber)
  /-- OR the data field into AC. -/
  | rdf
  /-- OR the instruction field into AC. -/
  | rif
  /-- OR the fields saved by the interrupt into AC. -/
  | rib
  /-- Restore the fields saved by the interrupt. -/
  | rmf
  deriving DecidableEq, Repr

/-- The transfer with a given code. -/
def ExtensionCommand.ofCode? (code : Word) : Option ExtensionCommand :=
  if code &&& 0o7700 = 0o6200 then
    let n := code.fieldBits
    match (code &&& 0o7).toNat with
    | 1 => some (.cdf n)
    | 2 => some (.cif n)
    | 3 => some (.cdfCif n)
    | 4 =>
      match n.toNat with
      | 1 => some .rdf
      | 2 => some .rif
      | 3 => some .rib
      | 4 => some .rmf
      | _ => none
    | _ => none
  else none

/-- The field registers and the interrupt system. -/
structure Extension where
  dataField : FieldNumber
  instructionField : FieldNumber
  /-- The field that the next jump goes to. -/
  fieldAfterJump : FieldNumber
  savedDataField : FieldNumber
  savedInstructionField : FieldNumber
  /-- Interrupts are held off until the next jump. -/
  heldOff : Bool
  /-- Interrupts are on. -/
  enabled : Bool
  /-- Interrupts are to be on from the next fetch. -/
  enabling : Bool
  /-- An interrupt from outside the processor is waiting. -/
  requested : Bool
  deriving DecidableEq, Repr

namespace Extension

/-- The extension as it powers up. -/
def powerUp : Extension := ⟨0, 0, 0, 0, 0, false, false, false, false⟩

/-- Latch a request from outside the processor. -/
def request (e : Extension) : Extension := { e with requested := true }

/-- Whether an interrupt is taken at a fetch, given whether the teletype requests one. -/
def willInterrupt (device : Bool) (e : Extension) : Bool :=
  e.enabled && (e.requested || device) && !e.heldOff

/-- Take an interrupt: save and clear the fields, turn interrupts off and drop the request. -/
def acknowledge (e : Extension) : Extension :=
  { e with
    savedDataField := e.dataField
    savedInstructionField := e.instructionField
    dataField := 0
    instructionField := 0
    fieldAfterJump := 0
    enabling := false
    enabled := false
    requested := false }

/-- What taking an interrupt reports. -/
def acknowledgeEvents (e : Extension) : List Event :=
  [.interruptAcknowledged e.instructionField e.dataField]

/-- ION. -/
def interruptOn (e : Extension) : Extension := { e with enabling := true }

/-- IOF, which takes effect at once. -/
def interruptOff (e : Extension) : Extension := { e with enabling := false, enabled := false }

/-- A fetch that takes no interrupt brings ION into effect. -/
def latch (e : Extension) : Extension := { e with enabled := e.enabling }

/-- The fetch of a JMP or JMS lets interrupts in again. -/
def release (e : Extension) : Extension := { e with heldOff := false }

/-- A jump has been taken: the selected instruction field comes into effect. -/
def jump (e : Extension) : Extension :=
  { e with heldOff := false, instructionField := e.fieldAfterJump }

/-- The LOAD ADDRESS key sets the fields from the switches. -/
def load (dataField instructionField : FieldNumber) (e : Extension) : Extension :=
  { e with
    dataField := dataField
    instructionField := instructionField
    fieldAfterJump := instructionField }

/-- Select the data field. -/
def selectData (n : FieldNumber) (e : Extension) : Extension := { e with dataField := n }

/-- Select the instruction field for the next jump, and hold interrupts off until then. -/
def selectInstruction (n : FieldNumber) (e : Extension) : Extension :=
  { e with fieldAfterJump := n, heldOff := true }

/-- Carry out a transfer: AC and the extension afterwards. -/
def perform (c : ExtensionCommand) (ac : Word) (e : Extension) : Word × Extension :=
  match c with
  | .cdf n => (ac, e.selectData n)
  | .cif n => (ac, e.selectInstruction n)
  | .cdfCif n => (ac, (e.selectData n).selectInstruction n)
  | .rdf => (ac ||| e.dataField.toBits5To3, e)
  | .rif => (ac ||| e.instructionField.toBits5To3, e)
  | .rib => (ac ||| e.savedDataField.setWidth 12 ||| e.savedInstructionField.toBits5To3, e)
  | .rmf =>
    (ac, { e with dataField := e.savedDataField, fieldAfterJump := e.savedInstructionField })

/-- The response to a transfer of any code. -/
def iot (code ac : Word) (e : Extension) : IotResponse × Word × Extension :=
  match ExtensionCommand.ofCode? code with
  | some c => let (ac, e) := e.perform c ac; (.done, ac, e)
  | none => (.notRecognised, ac, e)

end Extension

end Pdp8
