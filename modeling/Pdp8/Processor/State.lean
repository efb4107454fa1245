import Pdp8.Core
import Pdp8.Extension
import Pdp8.Instruction
import Pdp8.Processor.Microcode
import Pdp8.Teletype

/-!
# Pdp8.Processor.State — registers, and what is wired to them

The processor is kept together with core, the memory extension and the teletype.  Every memory
cycle goes through `read` or `write`, which note it in MA, MB and EA.
-/

namespace Pdp8

/-- The major state that the processor has just been through. -/
inductive Cycle
  | idle
  | fetch
  | defer
  | execute
  deriving DecidableEq, Repr

/-- Whether the processor goes on after a step, or has executed HLT. -/
inductive Outcome
  | proceed
  | halted
  deriving DecidableEq, Repr

/-- The registers that the panel shows or sets. -/
structure Registers where
  ac : Word
  link : Bool
  pc : Word
  ma : Word
  mb : Word
  /-- The field of the latest memory cycle. -/
  ea : FieldNumber
  sr : Word
  /-- The opcode of the current instruction. -/
  ir : BitVec 3
  deriving DecidableEq, Repr

/-- Cleared registers. -/
def Registers.zero : Registers := ⟨0, false, 0, 0, 0, 0, 0, 0⟩

/-- The processor and what is wired to it, with the events not yet collected, newest first. -/
structure Processor where
  regs : Registers
  fields : Extension
  cycle : Cycle
  /-- The instruction fetched last. -/
  current : Instruction
  /-- The location it was fetched from. -/
  fetchedFrom : Word
  /-- Whether fetches and interrupts are traced. -/
  traced : Bool
  core : Core
  tty : Teletype
  log : List Event

namespace Processor

/-- A processor as it powers up. -/
def powerUp (traced : Bool) (core : Core) (tty : Teletype) : Processor where
  regs := .zero
  fields := .powerUp
  cycle := .idle
  current := .decode 0
  fetchedFrom := 0
  traced := traced
  core := core
  tty := tty
  log := core.sizeEvents

/-- Report some events. -/
def report (events : List Event) (p : Processor) : Processor :=
  { p with log := events.reverse ++ p.log }

/-- Report an event of the instruction trace, if tracing is on. -/
def reportTrace (event : Event) (p : Processor) : Processor :=
  if p.traced then p.report [event] else p

/-- The events reported so far, oldest first, and the processor without them. -/
def collect (p : Processor) : List Event × Processor := (p.log.reverse, { p with log := [] })

/-- Do something to the teletype from outside. -/
def onTeletype (f : Teletype → Teletype) (p : Processor) : Processor := { p with tty := f p.tty }

/-- Do something to the memory extension from outside. -/
def onFields (f : Extension → Extension) (p : Processor) : Processor :=
  { p with fields := f p.fields }

/-- L.AC. -/
def linkAc (p : Processor) : LinkAc := ⟨p.regs.link, p.regs.ac⟩

/-- Load L.AC. -/
def setLinkAc (r : LinkAc) (p : Processor) : Processor :=
  { p with regs.link := r.link, regs.ac := r.ac }

/-- Skip the next instruction. -/
def skip (p : Processor) : Processor := { p with regs.pc := Word.successor p.regs.pc }

/-! ### Memory cycles -/

/-- Note a memory cycle in MA, MB and EA. -/
def refer (a : Address) (word : Word) (p : Processor) : Processor :=
  { p with regs.ea := a.field, regs.ma := a.location, regs.mb := word }

/-- A read cycle, which leaves the word in MB. -/
def read (a : Address) (p : Processor) : Processor :=
  let word := p.core.peek a
  let events := p.core.readEvents a
  refer a word { p with core := p.core.read a, log := events.reverse ++ p.log }

/-- A write cycle, which leaves the word in MB. -/
def write (a : Address) (word : Word) (p : Processor) : Processor :=
  let events := p.core.writeEvents a
  refer a word { p with core := p.core.write a word, log := events.reverse ++ p.log }

/-- Write words into core from outside, one after another within a field; the processor's own
registers are left alone. -/
def fill (a : Address) : List Word → Processor → Processor
  | [], p => p
  | w :: ws, p =>
    fill ⟨a.field, Word.successor a.location⟩ ws
      (report (p.core.writeEvents a) { p with core := p.core.write a w })

/-- Bring the processor back to the idle state, so that the next step is a fetch. -/
def goIdle (p : Processor) : Processor := { p with cycle := .idle }

end Processor

end Pdp8
