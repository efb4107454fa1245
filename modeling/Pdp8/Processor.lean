import Pdp8.Processor.State

/-!
# Pdp8.Processor — the processor, cycle by cycle

`step` carries the processor through one major state:

| State   | What happens                                                    | Next                |
| ------- | --------------------------------------------------------------- | ------------------- |
| idle    | nothing, after a panel key or power-up                          | fetch               |
| fetch   | poll the teletype; take an interrupt, or read the instruction at IF:PC and advance PC; a direct JMP, an IOT and an operate instruction are completed | fetch, defer, execute |
| defer   | read the pointer, incremented first in locations 0010 to 0017; an indirect JMP is completed | fetch, execute |
| execute | AND, TAD, ISZ, DCA or JMS on the operand                        | fetch               |

Direct references use the instruction field.  References through a pointer use the data field,
except that JMS always stores into the instruction field it jumps to.
-/

namespace Pdp8

namespace Processor

/-! ### Interrupts and transfers -/

/-- The processor as the trace shows it, at a place. -/
def traceState (place : Address) (p : Processor) : TraceState where
  place := place
  link := p.regs.link
  ac := p.regs.ac
  instructionField := p.fields.instructionField
  dataField := p.fields.dataField

/-- Take an interrupt: a JMS to location 0 of field 0. -/
def interrupt (p : Processor) : Processor :=
  let state := p.traceState ⟨p.fields.instructionField, p.regs.pc⟩
  let p := p.report p.fields.acknowledgeEvents
  let p := p.reportTrace (.interrupted state)
  let p := { p with fields := p.fields.acknowledge, cycle := .execute }
  let p := p.write .zero p.regs.pc
  { p with regs.pc := 1 }

/-- Act on the response of a device. -/
def respond (code : Word) (response : IotResponse) (p : Processor) : Processor :=
  match response with
  | .skip => p.skip
  | .done => p
  | .notRecognised =>
    p.report [.ignoredIot code ⟨p.fields.instructionField, p.fetchedFrom⟩]

/-- An input-output transfer.  The processor itself has ION and IOF, the memory extension codes
6200 to 6277, and the teletype all others. -/
def transfer (code : Word) (p : Processor) : Processor :=
  if code = 0o6001 then { p with fields := p.fields.interruptOn }
  else if code = 0o6002 then { p with fields := p.fields.interruptOff }
  else if code &&& 0o7700 = 0o6200 then
    let (response, ac, fields) := p.fields.iot code p.regs.ac
    respond code response { p with regs.ac := ac, fields := fields }
  else
    let (response, ac, tty) := p.tty.iot code p.regs.ac
    respond code response { p with regs.ac := ac, tty := tty }

/-! ### Operate instructions -/

/-- The place the current instruction was fetched from, while no other cycle has followed. -/
def here (p : Processor) : Address := ⟨p.regs.ea, p.fetchedFrom⟩

/-- A group 1 instruction. -/
def operate1 (g : Group1) (p : Processor) : Processor :=
  let p := p.setLinkAc (g.apply p.linkAc)
  match g.rotation with
  | .conflicting code => p.report [.conflictingRotation code p.here]
  | _ => p

/-- A group 2 instruction. -/
def operate2 (g : Group2) (p : Processor) : Outcome × Processor :=
  let p' := if g.skips p.linkAc then p.skip else p
  let p' := { p' with regs.ac := g.acAfter p'.regs.sr p'.regs.ac }
  if g.hlt then (.halted, p'.report [.halted p'.here]) else (.proceed, p')

/-- An operate instruction. -/
def operate (op : Operate) (p : Processor) : Outcome × Processor :=
  match op with
  | .group1 g => (.proceed, p.operate1 g)
  | .group2 g => p.operate2 g
  | .undefined word => (.proceed, p.report [.undefinedOperate word p.here])

/-! ### The cycles -/

/-- Jump to a location of the selected instruction field. -/
def jump (target : Word) (p : Processor) : Processor :=
  { p with fields := p.fields.jump, regs.pc := target }

/-- Read the instruction at IF:PC and advance PC. -/
def loadInstruction (p : Processor) : Processor :=
  let home := p.regs.pc
  let p := { p with fields := p.fields.latch, cycle := .fetch }
  let p := p.read ⟨p.fields.instructionField, home⟩
  let word := p.regs.mb
  let instruction := Instruction.decode word
  let p :=
    { p with
      regs.ir := word.opcode
      regs.pc := Word.successor home
      fetchedFrom := home
      current := instruction
      fields := if instruction.isJumpClass then p.fields.release else p.fields }
  p.reportTrace (.fetched (p.traceState p.here) word)

/-- Carry out as much of the current instruction as belongs to its fetch cycle. -/
def beginInstruction (p : Processor) : Outcome × Processor :=
  match p.current with
  | .memory _ _ => (.proceed, p)
  | .jump operand =>
    if operand.indirect then (.proceed, p)
    else (.proceed, p.jump (operand.resolve p.fetchedFrom))
  | .iot code => (.proceed, p.transfer code)
  | .operate op => p.operate op

/-- Let the teletype move its characters. -/
def poll (now : Time) (p : Processor) : Except Fault Processor :=
  match p.tty.poll now with
  | .error f => .error f
  | .ok (tty, events) => .ok { p with tty := tty, log := events.reverse ++ p.log }

/-- The fetch cycle, or the interrupt that takes its place. -/
def fetch (now : Time) (p : Processor) : Except Fault (Outcome × Processor) :=
  match p.poll now with
  | .error f => .error f
  | .ok p =>
    if p.fields.willInterrupt p.tty.interruptRequest then .ok (.proceed, p.interrupt)
    else .ok p.loadInstruction.beginInstruction

/-- The defer cycle: read the pointer, and complete an indirect JMP. -/
def defer (pointer : Word) (p : Processor) : Processor :=
  let a : Address := ⟨p.fields.instructionField, pointer⟩
  let p := { p with cycle := .defer }
  let p := p.read a
  let p := if a.isAutoIndex then p.write a (Word.successor p.regs.mb) else p
  match p.current with
  | .jump _ => p.jump p.regs.mb
  | _ => p

/-- Increment the operand, and skip if it has become zero. -/
def isz (a : Address) (p : Processor) : Processor :=
  let p := p.read a
  let p := p.write a (Word.successor p.regs.mb)
  if p.regs.mb = 0 then p.skip else p

/-- Store the return address in the new instruction field, and go on after it. -/
def jms (target : Word) (p : Processor) : Processor :=
  let p := { p with fields := p.fields.jump }
  let p := p.write ⟨p.fields.instructionField, target⟩ p.regs.pc
  { p with regs.pc := Word.successor target }

/-- A memory reference instruction on its operand. -/
def refers (op : MemoryOp) (a : Address) (p : Processor) : Processor :=
  match op with
  | .and => let p := p.read a; { p with regs.ac := p.regs.ac &&& p.regs.mb }
  | .tad => let p := p.read a; p.setLinkAc (p.linkAc.add p.regs.mb)
  | .isz => p.isz a
  | .dca => let p := p.write a p.regs.ac; { p with regs.ac := 0 }
  | .jms => p.jms a.location

/-- The execute cycle, which only memory reference instructions have. -/
def execute (a : Address) (p : Processor) : Except Fault (Outcome × Processor) :=
  match p.current with
  | .memory op _ => .ok (.proceed, refers op a { p with cycle := .execute })
  | other => .error (.noExecuteCycle other)

/-- One major state. -/
def step (now : Time) (p : Processor) : Except Fault (Outcome × Processor) :=
  match p.cycle with
  | .idle => p.fetch now
  | .execute => p.fetch now
  | .fetch =>
    match p.current.pendingOperand? with
    | none => p.fetch now
    | some operand =>
      let target := operand.resolve p.fetchedFrom
      if operand.indirect then .ok (.proceed, p.defer target)
      else p.execute ⟨p.fields.instructionField, target⟩
  | .defer =>
    match p.current with
    | .jump _ => p.fetch now
    | _ => p.execute ⟨p.fields.dataField, p.regs.mb⟩

end Processor

end Pdp8
