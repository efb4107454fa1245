import Pdp8.Clock
import Pdp8.Event
import Pdp8.Fault
import Pdp8.IotResponse

/-!
# Pdp8.Teletype — the console teletype

Keyboard and printer each have a one-character buffer and a flag.  The keyboard flag rises when a
character arrives, the printer flag when the printer has got rid of its last one.  `poll` moves
characters between the buffers and the lines, at most one each way and never faster than the
configured rate, and only `poll` recomputes the interrupt request.
-/

namespace Pdp8

/-- The transfers of the teletype. -/
inductive TeletypeCommand
  /-- Skip if the keyboard flag is up. -/
  | ksf
  /-- Clear AC and the keyboard flag. -/
  | kcc
  /-- OR the keyboard buffer into AC. -/
  | krs
  /-- Enable interrupts of the teletype, or not, by the low bit of AC. -/
  | kie
  /-- Load AC from the keyboard buffer and clear the keyboard flag. -/
  | krb
  /-- Skip if the printer flag is up. -/
  | tsf
  /-- Clear the printer flag. -/
  | tcf
  /-- Load the printer buffer from AC and print it. -/
  | tpc
  /-- Skip if the teletype requests an interrupt. -/
  | tsk
  /-- Clear the printer flag, load the printer buffer from AC and print it. -/
  | tls
  deriving DecidableEq, Repr

/-- The transfer with a given code. -/
def TeletypeCommand.ofCode? (code : Word) : Option TeletypeCommand :=
  match code.toNat with
  | 0o6031 => some .ksf
  | 0o6032 => some .kcc
  | 0o6034 => some .krs
  | 0o6035 => some .kie
  | 0o6036 => some .krb
  | 0o6041 => some .tsf
  | 0o6042 => some .tcf
  | 0o6044 => some .tpc
  | 0o6045 => some .tsk
  | 0o6046 => some .tls
  | _ => none

/-- The code of a transfer of the teletype. -/
def TeletypeCommand.code : TeletypeCommand → Word
  | .ksf => 0o6031
  | .kcc => 0o6032
  | .krs => 0o6034
  | .kie => 0o6035
  | .krb => 0o6036
  | .tsf => 0o6041
  | .tcf => 0o6042
  | .tpc => 0o6044
  | .tsk => 0o6045
  | .tls => 0o6046

theorem TeletypeCommand.eq_code {code : Word} {c : TeletypeCommand} (h : ofCode? code = some c) :
    code = c.code := by
  unfold ofCode? at h
  split at h <;> cases h <;> exact BitVec.eq_of_toNat_eq ‹_›

/-- The part of the teletype that can be seen from outside. -/
structure TeletypeStatus where
  keyboardFlag : Bool
  keyboardChar : Byte
  printerFlag : Bool
  printerFull : Bool
  printerChar : Byte
  interruptEnable : Bool
  interruptRequest : Bool
  deriving DecidableEq, Repr

/-- The console teletype.  No character is moved before its line's due time. -/
structure Teletype where
  keyboardFlag : Bool
  keyboardChar : Byte
  printerFlag : Bool
  printerFull : Bool
  printerChar : Byte
  interruptEnable : Bool
  interruptRequest : Bool
  interval : Time
  keyboardDue : Time
  printerDue : Time
  keyboard : Keyboard
  printer : Printer

namespace Teletype

/-- The time a character takes, in whole microseconds. -/
def charInterval (charsPerSecond : Nat) : Time := Time.ofMicros (1000000 / max charsPerSecond 1)

/-- A teletype as it powers up: idle, with its interrupts enabled. -/
def powerUp (charsPerSecond : Nat) (keyboard : Keyboard) (sink : Sink) : Teletype where
  keyboardFlag := false
  keyboardChar := 0
  printerFlag := false
  printerFull := false
  printerChar := 0
  interruptEnable := true
  interruptRequest := false
  interval := charInterval charsPerSecond
  keyboardDue := 0
  printerDue := 0
  keyboard := keyboard
  printer := .ofSink sink

/-- What can be seen of a teletype from outside. -/
def status (t : Teletype) : TeletypeStatus where
  keyboardFlag := t.keyboardFlag
  keyboardChar := t.keyboardChar
  printerFlag := t.printerFlag
  printerFull := t.printerFull
  printerChar := t.printerChar
  interruptEnable := t.interruptEnable
  interruptRequest := t.interruptRequest

/-- Offer a waiting character to the printer line, if it is time.  A refused character stays
where it is. -/
def servePrinter (now : Time) (t : Teletype) : Except Fault (Teletype × List Event) :=
  if t.printerFull && decide (t.printerDue ≤ now) then
    match t.printer.write t.printerChar with
    | (.ok true, printer) =>
      .ok
        ({ t with
            printerFlag := true
            printerFull := false
            printerDue := now + t.interval
            printer := printer },
          [.characterPrinted t.printerChar])
    | (.ok false, printer) => .ok ({ t with printer := printer }, [])
    | (.error e, _) => .error (.printerLine e)
  else .ok (t, [])

/-- Take a character from the keyboard line, if it is time and there is one. -/
def serveKeyboard (now : Time) (t : Teletype) : Except Fault (Teletype × List Event) :=
  if t.keyboardDue ≤ now then
    match t.keyboard.read with
    | (.ok (some b), keyboard) =>
      .ok
        ({ t with
            keyboardChar := b
            keyboardFlag := true
            keyboardDue := now + t.interval
            keyboard := keyboard },
          [.characterTyped b])
    | (.ok none, keyboard) => .ok ({ t with keyboard := keyboard }, [])
    | (.error e, _) => .error (.keyboardLine e)
  else .ok (t, [])

/-- Recompute the interrupt request. -/
def updateRequest (t : Teletype) : Teletype :=
  { t with interruptRequest := t.interruptEnable && (t.keyboardFlag || t.printerFlag) }

/-- Move characters whose time has come, the printer's first, and recompute the request. -/
def poll (now : Time) (t : Teletype) : Except Fault (Teletype × List Event) :=
  match t.servePrinter now with
  | .error f => .error f
  | .ok (t₁, printed) =>
    match t₁.serveKeyboard now with
    | .error f => .error f
    | .ok (t₂, typed) => .ok (t₂.updateRequest, printed ++ typed)

/-- Give the printer the low eight bits of AC. -/
def loadPrinter (ac : Word) (t : Teletype) : Teletype :=
  { t with printerChar := ac.setWidth 8, printerFull := true }

/-- Carry out a transfer: the response, AC and the teletype afterwards. -/
def perform (c : TeletypeCommand) (ac : Word) (t : Teletype) : IotResponse × Word × Teletype :=
  match c with
  | .ksf => (.skipIf t.keyboardFlag, ac, t)
  | .kcc => (.done, 0, { t with keyboardFlag := false })
  | .krs => (.done, ac ||| t.keyboardChar.setWidth 12, t)
  | .kie => (.done, ac, { t with interruptEnable := ac.getLsbD 0 })
  | .krb => (.done, t.keyboardChar.setWidth 12, { t with keyboardFlag := false })
  | .tsf => (.skipIf t.printerFlag, ac, t)
  | .tcf => (.done, ac, { t with printerFlag := false })
  | .tpc => (.done, ac, t.loadPrinter ac)
  | .tsk => (.skipIf t.interruptRequest, ac, t)
  | .tls => (.done, ac, loadPrinter ac { t with printerFlag := false })

/-- The response to a transfer of any code. -/
def iot (code ac : Word) (t : Teletype) : IotResponse × Word × Teletype :=
  match TeletypeCommand.ofCode? code with
  | some c => t.perform c ac
  | none => (.notRecognised, ac, t)

/-! ### The other ends of the lines -/

/-- Someone types some characters. -/
def type (bytes : List Byte) (t : Teletype) : Teletype :=
  { t with keyboard := t.keyboard.send bytes }

/-- Whoever types goes away. -/
def hangUp (t : Teletype) : Teletype := { t with keyboard := t.keyboard.hangUp }

/-- Whoever reads what is printed goes away. -/
def closePrinter (t : Teletype) : Teletype := { t with printer := t.printer.close }

/-- The characters printed so far, and the teletype without them. -/
def takePrinted (t : Teletype) : List Byte × Teletype :=
  (t.printer.printed, { t with printer := t.printer.collected })

end Teletype

end Pdp8
