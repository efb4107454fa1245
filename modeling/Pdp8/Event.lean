import Pdp8.Address
import Pdp8.Instruction.Mnemonic

/-!
# Pdp8.Event — what the simulator reports

Every noteworthy happening is an `Event`, which knows how severe it is and how it is worded.  The
parts of the machine return events as data; whoever runs the machine decides what to do with them.
-/

namespace Pdp8

/-- How much an event matters; a lower rank is more severe. -/
inductive Severity
  | error
  | warn
  | info
  | debug
  | trace
  deriving DecidableEq, Repr

namespace Severity

/-- The name of a severity. -/
def name : Severity → String
  | .error => "ERROR"
  | .warn => "WARN"
  | .info => "INFO"
  | .debug => "DEBUG"
  | .trace => "TRACE"

/-- The rank of a severity, from 0 for an error. -/
def rank : Severity → Nat
  | .error => 0
  | .warn => 1
  | .info => 2
  | .debug => 3
  | .trace => 4

end Severity

/-- The processor as a line of the instruction trace shows it. -/
structure TraceState where
  place : Address
  link : Bool
  ac : Word
  instructionField : FieldNumber
  dataField : FieldNumber
  deriving DecidableEq, Repr

/-- Something worth reporting. -/
inductive Event
  | coreSize (fields : Nat)
  | missingRead (place : Address)
  | missingWrite (place : Address)
  | characterPrinted (char : Byte)
  | characterTyped (char : Byte)
  | interruptAcknowledged (instructionField dataField : FieldNumber)
  /-- Trace of an instruction fetch. -/
  | fetched (state : TraceState) (word : Word)
  /-- Trace of an interrupt, with the state of the interrupted program. -/
  | interrupted (state : TraceState)
  | undefinedOperate (word : Word) (place : Address)
  | conflictingRotation (code : BitVec 3) (place : Address)
  | halted (place : Address)
  | ignoredIot (code : Word) (place : Address)
  | stopping
  | addressLoaded (place : Address)
  | deposited (word : Word) (place : Address)
  | examined (place : Address) (word : Word)
  | started
  | running
  | workerStarted
  | workerFinished
  /-- The teletype has been joined to the terminal. -/
  | connected (charsPerSecond : Nat)
  | imageLoaded (words : Nat)
  /-- The program has come to an end. -/
  | finished (place : Address) (link : Bool) (ac : Word)
  | inputEnded
  | inputFailed (text : String)
  deriving DecidableEq, Repr

/-- The link and the accumulator, with a point between them. -/
def linkAcText (link : Bool) (ac : Word) : String :=
  Octal.text link.toNat ++ "." ++ Octal.word ac

/-- The first part of a trace line. -/
def TraceState.text (t : TraceState) : String :=
  "PC=" ++ t.place.text
    ++ "  L.AC=" ++ linkAcText t.link t.ac
    ++ "  IF=" ++ Octal.text t.instructionField.toNat
    ++ "  DF=" ++ Octal.text t.dataField.toNat

namespace Event

/-- The severity of an event. -/
def severity : Event → Severity
  | .coreSize _ => .info
  | .missingRead _ => .trace
  | .missingWrite _ => .trace
  | .characterPrinted _ => .trace
  | .characterTyped _ => .trace
  | .interruptAcknowledged _ _ => .debug
  | .fetched _ _ => .info
  | .interrupted _ => .info
  | .undefinedOperate _ _ => .warn
  | .conflictingRotation _ _ => .warn
  | .halted _ => .info
  | .ignoredIot _ _ => .debug
  | .stopping => .debug
  | .addressLoaded _ => .debug
  | .deposited _ _ => .debug
  | .examined _ _ => .debug
  | .started => .debug
  | .running => .debug
  | .workerStarted => .debug
  | .workerFinished => .debug
  | .connected _ => .info
  | .imageLoaded _ => .debug
  | .finished _ _ _ => .info
  | .inputEnded => .debug
  | .inputFailed _ => .warn

/-- The wording of an event. -/
def message : Event → String
  | .coreSize fields => "memory size " ++ toString (4 * fields) ++ "K words"
  | .missingRead place => "read from missing field at " ++ place.text
  | .missingWrite place => "write to missing field at " ++ place.text ++ " discarded"
  | .characterPrinted char => "printed character " ++ Octal.padded 3 char.toNat
  | .characterTyped char => "keyboard character " ++ Octal.padded 3 char.toNat
  | .interruptAcknowledged i d =>
    "acknowledging interrupt (IF=" ++ Octal.text i.toNat ++ " DF=" ++ Octal.text d.toNat ++ ")"
  | .fetched state word =>
    state.text ++ "  IR=" ++ Octal.word word ++ "  "
      ++ Instruction.disassemble word state.place.location
  | .interrupted state => state.text ++ "  interrupt"
  | .undefinedOperate word place =>
    "operate instruction " ++ Octal.word word ++ " at " ++ place.text
      ++ " is not implemented on the PDP-8/L; ignoring it"
  | .conflictingRotation code place =>
    "OPR group 1 rotate code " ++ Octal.text code.toNat ++ " at " ++ place.text
      ++ " selects both directions; not rotating"
  | .halted place => "HLT at " ++ place.text
  | .ignoredIot code place =>
    "IOT " ++ Octal.word code ++ " at " ++ place.text ++ " has no device; ignoring it"
  | .stopping => "stopping"
  | .addressLoaded place => "LOAD ADDRESS " ++ place.text
  | .deposited word place => "DEPOSIT " ++ Octal.word word ++ " at " ++ place.text
  | .examined place word => "EXAMINE " ++ place.text ++ " = " ++ Octal.word word
  | .started => "START"
  | .running => "running"
  | .workerStarted => "worker started"
  | .workerFinished => "worker finished"
  | .connected charsPerSecond =>
    "teletype connected to the terminal at " ++ toString charsPerSecond
      ++ " characters per second"
  | .imageLoaded words => "loaded " ++ toString words ++ " words"
  | .finished place link ac => "halted at " ++ place.text ++ " with L.AC=" ++ linkAcText link ac
  | .inputEnded => "end of keyboard input"
  | .inputFailed text => "failed to read standard input: " ++ text

/-- Whether an event is a line of the instruction trace. -/
def isTraceLine : Event → Bool
  | .fetched _ _ => true
  | .interrupted _ => true
  | _ => false

/-- The events at least as severe as `limit`. -/
def atLeast (limit : Severity) (events : List Event) : List Event :=
  events.filter fun e => decide (e.severity.rank ≤ limit.rank)

/-- An event as one line of a log. -/
def line (e : Event) : String := e.severity.name ++ " " ++ e.message

end Event

end Pdp8
