import Pdp8.CommandLine
import Pdp8.FileTree
import Pdp8.Operator

/-!
# Pdp8.Program — loading and running an image

A job is an image to be loaded through the front panel and started.  Before a machine is built,
everything that can be wrong with a job is looked for in a fixed order: the start address, the
image, the addresses in it, the configuration.
-/

namespace Pdp8

/-- Why a job cannot be run. -/
inductive JobError
  | invalidStart (text : String)
  | unreachable (e : ReachError)
  | unreadable (path : String) (e : FileError)
  | badImage (path : String) (e : ImageError)
  | badSetup (e : SetupError)
  deriving DecidableEq, Repr

/-- The wording of a job error. -/
def JobError.message : JobError → String
  | .invalidStart text => "invalid start address '" ++ text ++ "'"
  | .unreachable e => e.message
  | .unreadable path e => "failed to read " ++ path ++ ": " ++ e.message
  | .badImage path e => path ++ ": " ++ e.message
  | .badSetup e => "invalid configuration: " ++ e.message

/-- An image to be loaded and started on a machine. -/
structure Job where
  setup : Setup
  start : Address
  blocks : List Block
  deriving DecidableEq, Repr

/-- What is reported when a program has come to an end. -/
def Snapshot.finishedEvent (s : Snapshot) : Event :=
  .finished ⟨s.instructionField, s.pc⟩ s.link s.ac

/-- What a finished job leaves behind. -/
structure Report where
  /-- PC after the last block was loaded. -/
  loadedPc : Word
  snapshot : Snapshot
  printed : List Byte
  deriving DecidableEq, Repr

namespace Job

/-- Refuse the first block that the front panel cannot load. -/
def checkBlocks (fieldCount : Nat) : List Block → Except ReachError Unit
  | [] => .ok ()
  | b :: bs =>
    match b.start.checkReach fieldCount with
    | .error e => .error e
    | .ok () => checkBlocks fieldCount bs

/-- The job of running the image in a file from a start address. -/
def plan (setup : Setup) (start path : String) (contents : Except FileError String) :
    Except JobError Job := do
  let place ←
    match Address.parse? start with
    | some place => .ok place
    | none => .error (JobError.invalidStart start)
  (place.checkReach setup.fieldCount).mapError .unreachable
  let text ← contents.mapError (.unreadable path)
  let blocks ← (Image.parse text).mapError (.badImage path)
  (checkBlocks setup.fieldCount blocks).mapError .unreachable
  setup.validate.mapError .badSetup
  return ⟨setup, place, blocks⟩

/-- How many words a job loads. -/
def wordCount (job : Job) : Nat := job.blocks.foldl (fun n b => n + b.words.length) 0

/-- A new machine with the blocks of a job in its core. -/
def load (job : Job) (keyboard : Keyboard) (sink : Sink) (clock : Clock) :
    Except Fault Operator := do
  let op := Operator.ofRunner (.powerUp job.setup .standard keyboard sink clock)
  let op ← (op.report (.connected job.setup.charsPerSecond)).load job.blocks
  return op.report (.imageLoaded job.wordCount)

/-- Start a job that has been loaded. -/
def launch (job : Job) (op : Operator) : Except Fault Operator :=
  op.apply (Setting.startAt job.start)

/-- Load a job, start it, and wait until it halts, for at most `fuel` turns of the worker. -/
def perform (fuel : Nat) (job : Job) (keyboard : Keyboard) (sink : Sink) (clock : Clock) :
    Except Fault Report := do
  let loaded ← job.load keyboard sink clock
  let pc := loaded.runner.machine.processor.regs.pc
  let finished ← (← job.launch loaded).wait fuel
  let m := finished.runner.machine
  return ⟨pc, m.snapshot, m.processor.tty.printer.printed⟩

end Job

/-- How a run of the program ends. -/
inductive Conclusion
  | refused (why : Refusal)
  | failed (e : JobError)
  | faulted (f : Fault)
  /-- The program halted; the dump is there if it was asked for. -/
  | halted (printed : List Byte) (dump : Option String)

namespace Program

/-- The text of a file. -/
def decodeText (contents : Except FileError ByteArray) : Except FileError String :=
  match contents with
  | .error e => .error e
  | .ok bytes =>
    match String.fromUTF8? bytes with
    | some text => .ok text
    | none => .error .notUtf8

/-- The configuration that some options ask for. -/
def setupOf (o : Options) : Setup := ⟨o.fields, o.charsPerSecond, o.traced⟩

/-- The job that some options ask for. -/
def jobOf (o : Options) (contents : Except FileError ByteArray) : Except JobError Job :=
  Job.plan (setupOf o) o.start o.image (decodeText contents)

/-- The dump of the registers, if the options ask for one. -/
def dumpOf (o : Options) (s : Snapshot) : Option String :=
  if o.dumpRegisters then some s.json else none

/-- A whole run with `input` on the keyboard and a printer that is always ready. -/
def run (fuel : Nat) (clock : Options → Clock) (args : List String) (env : Environment)
    (readFile : String → Except FileError ByteArray) (input : List Byte) : Conclusion :=
  match CommandLine.parse args env with
  | .error why => .refused why
  | .ok options =>
    match jobOf options (readFile options.image) with
    | .error e => .failed e
    | .ok job =>
      match job.perform fuel (.queue input false) (.stream [] []) (clock options) with
      | .error f => .faulted f
      | .ok report => .halted report.printed (dumpOf options report.snapshot)

end Program

end Pdp8
