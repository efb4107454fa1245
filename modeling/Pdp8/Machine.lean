import Pdp8.Panel
import Pdp8.Setup
import Pdp8.Snapshot

/-!
# Pdp8.Machine — the whole machine

The processor behind its front panel.  Switches act at once; keys act when they go down, and all
but STOP only while the machine is stopped.  While `running` is on, someone is to call `step`
again and again; HLT turns it off and leaves the machine `halted`, which makes `step` do nothing
until START or CONTINUE.
-/

namespace Pdp8

/-- The machine with its front panel. -/
structure Machine where
  processor : Processor
  panel : Panel
  clock : Clock
  switches : Switches
  running : Bool
  halted : Bool

/-- What a write of the pins asks for. -/
structure PinWrite where
  keys : Keys
  /-- The write has stopped the running machine. -/
  stopRequested : Bool
  deriving DecidableEq, Repr

namespace Machine

/-- A machine as it powers up. -/
def powerUp (setup : Setup) (table : PinTable) (tty : Teletype) (clock : Clock) : Machine where
  processor := .powerUp setup.traced (.blank setup.fieldCount) tty
  panel := .ofTable table
  clock := clock
  switches := .off
  running := false
  halted := false

/-- Report an event. -/
def report (event : Event) (m : Machine) : Machine :=
  { m with processor := m.processor.report [event] }

/-- The events reported so far, oldest first, and the machine without them. -/
def collect (m : Machine) : List Event × Machine :=
  let (events, processor) := m.processor.collect
  (events, { m with processor := processor })

/-- Stop the machine, if it is running. -/
def stop (m : Machine) : Machine :=
  if m.running then { m.report .stopping with running := false } else m

/-- One major state, unless the machine is halted. -/
def step (m : Machine) : Except Fault (Outcome × Machine) :=
  if m.halted then .ok (.halted, m)
  else
    let (now, clock) := m.clock.read
    match m.processor.step now with
    | .error f => .error f
    | .ok (.proceed, p) => .ok (.proceed, { m with processor := p, clock := clock })
    | .ok (.halted, p) =>
      .ok (.halted, { m with processor := p, clock := clock, running := false, halted := true })

/-- Steps while the machine is running, at most `fuel` of them; the result has how many there
were, and the outcome of the last one. -/
def run (fuel : Nat) (m : Machine) : Except Fault (Nat × Option Outcome × Machine) :=
  go fuel 0 none m
where
  /-- Go on after `n` steps, the last with the outcome `last`. -/
  go : Nat → Nat → Option Outcome → Machine → Except Fault (Nat × Option Outcome × Machine)
    | 0, n, last, m => .ok (n, last, m)
    | fuel + 1, n, last, m =>
      if m.running then
        match m.step with
        | .error f => .error f
        | .ok (outcome, m) => go fuel (n + 1) (some outcome) m
      else .ok (n, last, m)

/-- Latch an interrupt request from outside. -/
def requestInterrupt (m : Machine) : Machine :=
  { m with processor := m.processor.onFields Extension.request }

/-- Do something to the teletype from outside. -/
def onTeletype (f : Teletype → Teletype) (m : Machine) : Machine :=
  { m with processor := m.processor.onTeletype f }

/-- Let some time pass. -/
def advance (interval : Time) (m : Machine) : Machine :=
  { m with clock := m.clock.advance interval }

/-- Take in a write of the pins.  The switches act at once; STOP, or switching STEP on, stops the
running machine; the keys that went down are returned. -/
def acceptPins (v : PinVector) (m : Machine) : PinWrite × Machine :=
  let (switches, keys, panel) := m.panel.accept v
  let stopRequested := m.running && (keys.stop || switches.step)
  let m :=
    { m with
      panel := panel
      switches := switches
      processor := { m.processor with regs.sr := switches.switchRegister } }
  (⟨keys, stopRequested⟩, if stopRequested then m.stop else m)

/-- The field that a field switch selects. -/
def switchedField (on : Bool) : FieldNumber := if on then 1 else 0

/-- LOAD ADDRESS: the fields, PC, MA and MB from the switches. -/
def pressLoadAddress (m : Machine) : Machine :=
  let place : Address := ⟨switchedField m.switches.instField, m.switches.switchRegister⟩
  let p := m.processor
  let p :=
    { p with
      fields := p.fields.load (switchedField m.switches.dataField) place.field
      regs.pc := place.location }
  { m with processor := ((p.read place).goIdle).report [.addressLoaded place] }

/-- DEPOSIT: the switch register into DF:PC, and PC advances. -/
def pressDeposit (m : Machine) : Machine :=
  let p := m.processor
  let place : Address := ⟨p.fields.dataField, p.regs.pc⟩
  let word := m.switches.switchRegister
  let p := p.write place word
  let p := { p with regs.pc := Word.successor place.location }
  { m with processor := p.goIdle.report [.deposited word place] }

/-- EXAMINE: DF:PC into MB, and PC advances. -/
def pressExamine (m : Machine) : Machine :=
  let p := m.processor
  let place : Address := ⟨p.fields.dataField, p.regs.pc⟩
  let p := p.read place
  let p := { p with regs.pc := Word.successor p.regs.ma }
  { m with processor := p.goIdle.report [.examined place p.regs.mb] }

/-- START clears AC and the link. -/
def pressStart (m : Machine) : Machine :=
  let p := m.processor
  let p := { p with regs.ac := 0, regs.link := false }
  { m with processor := p.goIdle.report [.started] }

/-- Go on after START or CONTINUE: by one step if the STEP switch is on, and otherwise by
running, which the result then asks for. -/
def resume (m : Machine) : Except Fault (Bool × Machine) :=
  let m := { m with halted := false }
  if m.switches.step then
    match m.step with
    | .error f => .error f
    | .ok (_, m) => .ok (false, m)
  else .ok (true, { m.report .running with running := true })

/-- Act on the keys that went down, unless the machine is running.  The result is whether someone
should now run the machine. -/
def pressKeys (keys : Keys) (m : Machine) : Except Fault (Bool × Machine) :=
  if m.running then .ok (false, m)
  else
    let m := if keys.loadAddress then m.pressLoadAddress else m
    let m := if keys.deposit then m.pressDeposit else m
    let m := if keys.examine then m.pressExamine else m
    let m := if keys.start then m.pressStart else m
    if keys.start || keys.continueKey then m.resume else .ok (false, m)

/-- A complete write of the pins: the switches, then the keys. -/
def writePins (v : PinVector) (m : Machine) : Except Fault (PinWrite × Bool × Machine) :=
  let (write, m) := m.acceptPins v
  match m.pressKeys write.keys with
  | .error f => .error f
  | .ok (start, m) => .ok (write, start, m)

/-- What the lights show. -/
def lights (m : Machine) : Lights where
  accumulator := m.processor.regs.ac
  memoryAddress := m.processor.core.last.address.location
  memoryBuffer := m.processor.core.last.word
  instructionRegister := m.processor.regs.ir
  fetch := m.processor.cycle == .fetch
  defer := m.processor.cycle == .defer
  execute := m.processor.cycle == .execute
  interruptOn := m.processor.fields.enabled
  run := m.running
  extendedAddress := m.processor.core.last.address.field.getLsbD 0
  link := m.processor.regs.link

/-- The pins as they are read. -/
def readPins (m : Machine) : PinVector := m.panel.render m.lights

/-- A copy of the registers. -/
def snapshot (m : Machine) : Snapshot where
  ac := m.processor.regs.ac
  link := m.processor.regs.link
  pc := m.processor.regs.pc
  ma := m.processor.regs.ma
  mb := m.processor.regs.mb
  sr := m.processor.regs.sr
  ir := m.processor.regs.ir
  instructionField := m.processor.fields.instructionField
  dataField := m.processor.fields.dataField
  fieldAfterJump := m.processor.fields.fieldAfterJump
  savedInstructionField := m.processor.fields.savedInstructionField
  savedDataField := m.processor.fields.savedDataField
  interruptsEnabled := m.processor.fields.enabled
  interruptRequested := m.processor.fields.requested
  running := m.running
  halted := m.halted
  cycle := m.processor.cycle
  teletype := m.processor.tty.status

end Machine

end Pdp8
