import Pdp8.Program

/-!
# Pdp8.Main — the simulator as a program

Joins the simulated teletype to standard input and output, follows real time, and leaves every
decision to `Pdp8.Program`.
-/

namespace Pdp8.Terminal

/-- What is shown for a wrong command line, and on request. -/
def usageText : String :=
  "usage: pdp8l [--fields N] [--tty-cps N] [--start [F.]AAAA] [--trace] [--dump-registers] IMAGE"

/-- An error code of the system, which may be reported with its sign turned. -/
def errorCode (code : UInt32) : Nat :=
  if code.toNat < 0x80000000 then code.toNat else 0x100000000 - code.toNat

/-- The cause of a failure to read a file. -/
def fileError (e : IO.Error) : FileError :=
  match e with
  | .noFileOrDirectory _ code details => .ofCode (errorCode code) details
  | .permissionDenied _ code details => .ofCode (errorCode code) details
  | .inappropriateType _ code details => .ofCode (errorCode code) details
  | .invalidArgument _ code details => .ofCode (errorCode code) details
  | other => .other (toString other)

/-- The bytes of a file. -/
def readFile (path : String) : IO (Except FileError ByteArray) := do
  try
    return .ok (← IO.FS.readBinFile path)
  catch e =>
    return .error (fileError e)

/-- The variables of the environment that stand in for options. -/
def environment : IO Environment := do
  return ⟨← IO.getEnv "PDP8L_MEMFIELDS", ← IO.getEnv "PDP8L_TTYCPS", ← IO.getEnv "PDP8L_SIMTRACE"⟩

/-- The least severe events that are shown. -/
def shown : Severity := .info

/-- Show some events on standard error. -/
def log (events : List Event) : IO Unit := do
  for event in Event.atLeast shown events do
    IO.eprintln event.line

/-- What has been typed and not yet been given to the machine; nothing once the machine is done. -/
abbrev Typed := IO.Ref (Option (List Byte))

/-- Add what comes on standard input to what has been typed, until the input ends or nobody wants
any more of it. -/
partial def listen (typed : Typed) (input : IO.FS.Stream) : IO Unit := do
  let bytes ← input.read 1
  if bytes.isEmpty then log [.inputEnded]
  else
    let chars := bytes.toList.map fun b => BitVec.ofNat 8 b.toNat
    let wanted ← typed.modifyGet fun waiting => (waiting.isSome, waiting.map (· ++ chars))
    if wanted then listen typed input

/-- Listen to the keyboard for as long as it can be read. -/
def keyboard (typed : Typed) : IO Unit := do
  try
    listen typed (← IO.getStdin)
  catch e =>
    log [.inputFailed (toString e)]

/-- Show what a machine has printed and reported, and take it away. -/
def flush (m : Machine) : IO Machine := do
  let chars := m.processor.tty.printer.printed
  unless chars.isEmpty do
    let output ← IO.getStdout
    output.write (ByteArray.mk (chars.map fun b => b.toNat.toUInt8).toArray)
    output.flush
  let (events, m) := (m.onTeletype fun t => t.takePrinted.2).collect
  log events
  return m

/-- Let the worker run the machine in real time until it has left. -/
partial def follow (typed : Typed) (since : Nat) (r : Runner) : IO (Except Fault Machine) := do
  if r.mustWait then
    let chars ← typed.modifyGet fun waiting => (waiting.getD [], some [])
    let elapsed := (← IO.monoNanosNow) - since
    let prepare (m : Machine) : Machine :=
      (m.onTeletype (Teletype.type chars)).advance (elapsed - m.clock.now)
    match (r.onMachine prepare).work 1 with
    | .error f => return .error f
    | .ok r => follow typed since { r with machine := ← flush r.machine }
  else return .ok r.machine

/-- Show a fault; the result is the exit status. -/
def fail (f : Fault) : IO UInt32 := do
  IO.eprintln (Severity.error.name ++ " " ++ f.message)
  return 134

/-- Run a job on the terminal; the result is the exit status. -/
def runJob (options : Options) (job : Job) : IO UInt32 := do
  let typed ← IO.mkRef (some [])
  let _ ← IO.asTask (keyboard typed) Task.Priority.dedicated
  let since ← IO.monoNanosNow
  let started : Except Fault Operator := do
    job.launch (← job.load (.queue [] true) (.queue true) ⟨0, 0⟩)
  match started with
  | .error f => fail f
  | .ok op =>
    let finished ← follow typed since { op.runner with machine := ← flush op.runner.machine }
    typed.set none
    match finished with
    | .error f => fail f
    | .ok m =>
      log [m.snapshot.finishedEvent]
      match Program.dumpOf options m.snapshot with
      | some dump => IO.eprintln dump
      | none => pure ()
      return 0

/-- The program; the result is the exit status. -/
def run (args : List String) : IO UInt32 := do
  match CommandLine.parse args (← environment) with
  | .error .usage =>
    IO.eprintln usageText
    return 2
  | .error .help =>
    IO.println usageText
    return 0
  | .error .version =>
    IO.println "pdp8l 0.1.0"
    return 0
  | .ok options =>
    match Program.jobOf options (← readFile options.image) with
    | .error e =>
      IO.eprintln e.message
      return 1
    | .ok job => runJob options job

end Pdp8.Terminal

/-- Run the simulator. -/
def main (args : List String) : IO UInt32 := Pdp8.Terminal.run args
