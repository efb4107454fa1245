import Mathlib.Logic.Function.Basic
import Pdp8.Processor

/-!
# Pdp8.Proofs.Architecture — the instructions as a programmer knows them

A program sees L.AC, PC, the switches, the fields with the interrupt system, the teletype and core;
the major states, MA and MB are not its business.  `Architecture.instruction` carries out one
instruction on that state in a single move, and is written from the words alone: an opcode is the
first digit, an operand the page and the offset put side by side, arithmetic that of the 13-bit
register L.AC, and a transfer a change of the fields or of the teletype that its code names.
`Architecture.cycles` is the number of major states that the instruction takes, and
`Architecture.interrupt` what may come in its place.

The records of the fields and of the teletype are those of the processor; none of their operations
is used here.
-/

namespace Pdp8

/-- The machine as a program sees it between two instructions. -/
@[ext] structure Architecture where
  /-- The link and AC as one register, the link on top. -/
  lac : BitVec 13
  pc : Word
  /-- The switch register. -/
  switches : Word
  fields : Extension
  tty : Teletype
  fieldCount : Nat
  memory : Address → Word

namespace Architecture

/-- AC alone. -/
def ac (s : Architecture) : Word := s.lac.setWidth 12

/-- The place the next instruction comes from. -/
def home (s : Architecture) : Address := ⟨s.fields.instructionField, s.pc⟩

/-- Store a word, which is lost if the field is not fitted. -/
def store (a : Address) (word : Word) (s : Architecture) : Architecture :=
  { s with
    memory :=
      if a.field.toNat < s.fieldCount then Function.update s.memory a word else s.memory }

/-- Skip an instruction. -/
def skip (s : Architecture) : Architecture := { s with pc := s.pc + 1 }

/-- Go on at a location of the selected instruction field. -/
def goTo (target : Word) (s : Architecture) : Architecture :=
  { s with
    pc := target
    fields.instructionField := s.fields.fieldAfterJump
    fields.heldOff := false }

/-! ### Operands -/

/-- The location that an instruction word from `home` names: an offset in its own page or in page
zero. -/
def named (word home : Word) : Word :=
  (if word.getLsbD 7 then home.extractLsb' 7 5 else 0#5) ++ word.extractLsb' 0 7

/-- The pointer at an address; in locations 0010 to 0017 it is incremented first, and stored
back. -/
def follow (a : Address) (s : Architecture) : Word × Architecture :=
  if 0o10 ≤ a.location.toNat ∧ a.location.toNat ≤ 0o17 then
    (s.memory a + 1, s.store a (s.memory a + 1))
  else (s.memory a, s)

/-- The operand of an instruction word from `home`: named directly in the instruction field, or
through a pointer there into the data field. -/
def operand (word home : Word) (s : Architecture) : Address × Architecture :=
  let here : Address := ⟨s.fields.instructionField, named word home⟩
  if word.getLsbD 8 then
    let (pointer, s) := s.follow here
    (⟨s.fields.dataField, pointer⟩, s)
  else (here, s)

/-! ### Memory references -/

/-- AND. -/
def and (a : Address) (s : Architecture) : Architecture :=
  { s with lac := s.lac &&& (0o10000 ||| (s.memory a).setWidth 13) }

/-- TAD; a carry out of AC goes into the link. -/
def tad (a : Address) (s : Architecture) : Architecture :=
  { s with lac := s.lac + (s.memory a).setWidth 13 }

/-- ISZ. -/
def isz (a : Address) (s : Architecture) : Architecture :=
  if s.memory a + 1 = 0 then (s.store a (s.memory a + 1)).skip else s.store a (s.memory a + 1)

/-- DCA. -/
def dca (a : Address) (s : Architecture) : Architecture :=
  { s.store a s.ac with lac := s.lac &&& 0o10000 }

/-- JMS: the return address goes into the selected instruction field. -/
def jms (target : Word) (s : Architecture) : Architecture :=
  (s.goTo (target + 1)).store ⟨s.fields.fieldAfterJump, target⟩ s.pc

/-- The memory reference with an opcode. -/
def refer (opcode : Nat) (a : Address) (s : Architecture) : Architecture :=
  match opcode with
  | 0 => s.and a
  | 1 => s.tad a
  | 2 => s.isz a
  | 3 => s.dca a
  | _ => s.jms a.location

/-! ### Transfers -/

/-- A transfer of the memory extension, by the last two digits of its code. -/
def transferFields (code : Word) (s : Architecture) : Architecture :=
  let n : FieldNumber := code.extractLsb' 3 3
  match code.toNat % 8 with
  | 1 => { s with fields.dataField := n }
  | 2 => { s with fields.fieldAfterJump := n, fields.heldOff := true }
  | 3 => { s with fields.dataField := n, fields.fieldAfterJump := n, fields.heldOff := true }
  | 4 =>
    match n.toNat with
    | 1 => { s with lac := s.lac ||| s.fields.dataField.setWidth 13 <<< 3 }
    | 2 => { s with lac := s.lac ||| s.fields.instructionField.setWidth 13 <<< 3 }
    | 3 =>
      { s with
        lac :=
          s.lac ||| s.fields.savedDataField.setWidth 13
            ||| s.fields.savedInstructionField.setWidth 13 <<< 3 }
    | 4 =>
      { s with
        fields.dataField := s.fields.savedDataField
        fields.fieldAfterJump := s.fields.savedInstructionField }
    | _ => s
  | _ => s

/-- A transfer of the teletype: KSF, KCC, KRS, KIE and KRB for the keyboard, TSF, TCF, TPC, TSK and
TLS for the printer. -/
def transferTeletype (code : Word) (s : Architecture) : Architecture :=
  match code.toNat with
  | 0o6031 => if s.tty.keyboardFlag then s.skip else s
  | 0o6032 => { s with lac := s.lac &&& 0o10000, tty.keyboardFlag := false }
  | 0o6034 => { s with lac := s.lac ||| s.tty.keyboardChar.setWidth 13 }
  | 0o6035 => { s with tty.interruptEnable := s.lac.getLsbD 0 }
  | 0o6036 =>
    { s with
      lac := (s.lac &&& 0o10000) ||| s.tty.keyboardChar.setWidth 13
      tty.keyboardFlag := false }
  | 0o6041 => if s.tty.printerFlag then s.skip else s
  | 0o6042 => { s with tty.printerFlag := false }
  | 0o6044 => { s with tty.printerChar := s.lac.setWidth 8, tty.printerFull := true }
  | 0o6045 => if s.tty.interruptRequest then s.skip else s
  | 0o6046 =>
    { s with
      tty.printerFlag := false
      tty.printerChar := s.lac.setWidth 8
      tty.printerFull := true }
  | _ => s

/-- An input-output transfer: ION, IOF, codes 62xx for the memory extension, and all others for the
teletype. -/
def transfer (code : Word) (s : Architecture) : Architecture :=
  if code = 0o6001 then { s with fields.enabling := true }
  else if code = 0o6002 then { s with fields.enabling := false, fields.enabled := false }
  else if code.toNat / 64 = 0o62 then s.transferFields code
  else s.transferTeletype code

/-! ### Operate instructions -/

/-- CLA and CLL. -/
def clear (word : Word) (lac : BitVec 13) : BitVec 13 :=
  let lac := if word.getLsbD 7 then lac &&& 0o10000 else lac
  if word.getLsbD 6 then lac &&& 0o7777 else lac

/-- CMA and CML. -/
def complement (word : Word) (lac : BitVec 13) : BitVec 13 :=
  let lac := if word.getLsbD 5 then lac ^^^ 0o7777 else lac
  if word.getLsbD 4 then lac ^^^ 0o10000 else lac

/-- BSW, RAL, RTL, RAR or RTR; a rotation both ways does nothing. -/
def rotate (word : Word) (lac : BitVec 13) : BitVec 13 :=
  match word.toNat / 2 % 8 with
  | 1 => .cons lac.msb (lac.extractLsb' 0 6 ++ lac.extractLsb' 6 6)
  | 2 => lac.rotateLeft 1
  | 3 => lac.rotateLeft 2
  | 4 => lac.rotateRight 1
  | 5 => lac.rotateRight 2
  | _ => lac

/-- IAC. -/
def increment (word : Word) (lac : BitVec 13) : BitVec 13 :=
  if word.getLsbD 0 then lac + 1 else lac

/-- Group 1, by its bits from the left. -/
def operate1 (word : Word) (lac : BitVec 13) : BitVec 13 :=
  increment word (rotate word (complement word (clear word lac)))

/-- The skip of group 2: SMA, SZA or SNL; in the reversed sense SPA, SNA and SZL. -/
def skips (word : Word) (lac : BitVec 13) : Bool :=
  let minus := word.getLsbD 6 && lac.getLsbD 11
  let zero := word.getLsbD 5 && lac.setWidth 12 == 0#12
  let link := word.getLsbD 4 && lac.getLsbD 12
  if word.getLsbD 3 then !minus && !zero && !link else minus || zero || link

/-- Group 2, after its skip: CLA and OSR. -/
def operate2 (word switches : Word) (lac : BitVec 13) : BitVec 13 :=
  let lac := if word.getLsbD 7 then lac &&& 0o10000 else lac
  if word.getLsbD 2 then lac ||| switches.setWidth 13 else lac

/-- An operate instruction; a group 3 word does nothing. -/
def operate (word : Word) (s : Architecture) : Outcome × Architecture :=
  if word.getLsbD 8 then
    if word.getLsbD 0 then (.proceed, s)
    else
      let s' := if skips word s.lac then s.skip else s
      (if word.getLsbD 1 then .halted else .proceed,
        { s' with lac := operate2 word s.switches s.lac })
  else (.proceed, { s with lac := operate1 word s.lac })

/-! ### Instructions -/

/-- PC is advanced, and an ION of an earlier instruction comes into effect. -/
def advance (s : Architecture) : Architecture :=
  { s with pc := s.pc + 1, fields.enabled := s.fields.enabling }

/-- The instruction `word`, fetched from location `home`. -/
def perform (word home : Word) (s : Architecture) : Outcome × Architecture :=
  match word.toNat / 0o1000 with
  | 7 => s.operate word
  | 6 => (.proceed, s.transfer word)
  | 5 =>
    let (a, s) := s.operand word home
    (.proceed, s.goTo a.location)
  | opcode =>
    let (a, s) := s.operand word home
    (.proceed, s.refer opcode a)

/-- One instruction: the one at IF:PC. -/
def instruction (s : Architecture) : Outcome × Architecture :=
  s.advance.perform (s.memory s.home) s.pc

/-- The number of major states of an instruction: its fetch, a defer cycle if it is indirect, and
an execute cycle if it works on an operand. -/
def cycles (word : Word) : Nat :=
  if 6 ≤ word.toNat / 0o1000 then 1
  else 1 + (word.getLsbD 8).toNat + (if word.toNat / 0o1000 = 5 then 0 else 1)

/-- The fields are saved and cleared, interrupts go off, and the request from outside is
answered. -/
def saveFields (s : Architecture) : Architecture :=
  { s with
    fields.savedDataField := s.fields.dataField
    fields.savedInstructionField := s.fields.instructionField
    fields.dataField := 0
    fields.instructionField := 0
    fields.fieldAfterJump := 0
    fields.enabling := false
    fields.enabled := false
    fields.requested := false }

/-- An interrupt in place of an instruction: the fields are saved, and the return address goes into
location 0 of field 0. -/
def interrupt (s : Architecture) : Architecture :=
  { s.saveFields.store .zero s.pc with pc := 1 }

end Architecture

/-- What a program sees of a processor. -/
def Processor.architecture (p : Processor) : Architecture where
  lac := .cons p.regs.link p.regs.ac
  pc := p.regs.pc
  switches := p.regs.sr
  fields := p.fields
  tty := p.tty
  fieldCount := p.core.fieldCount
  memory := p.core.peek

end Pdp8
