import Pdp8.Processor

/-!
# Pdp8.Snapshot — the registers, for inspection

A snapshot copies everything about a machine that can be looked at, and is written as an indented
JSON object with one entry for each register.
-/

namespace Pdp8

/-- The name of a major state. -/
def Cycle.name : Cycle → String
  | .idle => "Idle"
  | .fetch => "Fetch"
  | .defer => "Defer"
  | .execute => "Execute"

/-- A copy of the registers of a machine. -/
structure Snapshot where
  ac : Word
  link : Bool
  pc : Word
  ma : Word
  mb : Word
  sr : Word
  ir : BitVec 3
  instructionField : FieldNumber
  dataField : FieldNumber
  fieldAfterJump : FieldNumber
  savedInstructionField : FieldNumber
  savedDataField : FieldNumber
  interruptsEnabled : Bool
  interruptRequested : Bool
  running : Bool
  halted : Bool
  cycle : Cycle
  teletype : TeletypeStatus
  deriving DecidableEq, Repr

namespace Snapshot

/-- A truth value in JSON. -/
def flagText (b : Bool) : String := if b then "true" else "false"

/-- A word in JSON. -/
def numberText {w : Nat} (a : BitVec w) : String := toString a.toNat

/-- An object with one entry on each line; `indent` is what its closing brace is set in by. -/
def objectText (indent : String) (entries : List (String × String)) : String :=
  let line (e : String × String) : String := indent ++ "  \"" ++ e.1 ++ "\": " ++ e.2
  "\x7b\n" ++ ",\n".intercalate (entries.map line) ++ "\n" ++ indent ++ "\x7d"

/-- The entries for the teletype. -/
def teletypeEntries (t : TeletypeStatus) : List (String × String) :=
  [("keyboard_flag", flagText t.keyboardFlag),
    ("keyboard_char", numberText t.keyboardChar),
    ("printer_flag", flagText t.printerFlag),
    ("printer_full", flagText t.printerFull),
    ("printer_char", numberText t.printerChar),
    ("interrupt_enable", flagText t.interruptEnable),
    ("interrupt_request", flagText t.interruptRequest)]

/-- The entries of a snapshot. -/
def entries (s : Snapshot) : List (String × String) :=
  [("ac", numberText s.ac),
    ("link", flagText s.link),
    ("pc", numberText s.pc),
    ("ma", numberText s.ma),
    ("mb", numberText s.mb),
    ("sr", numberText s.sr),
    ("ir", numberText s.ir),
    ("instruction_field", numberText s.instructionField),
    ("data_field", numberText s.dataField),
    ("instruction_field_after_jump", numberText s.fieldAfterJump),
    ("saved_instruction_field", numberText s.savedInstructionField),
    ("saved_data_field", numberText s.savedDataField),
    ("interrupts_enabled", flagText s.interruptsEnabled),
    ("interrupt_requested", flagText s.interruptRequested),
    ("running", flagText s.running),
    ("halted", flagText s.halted),
    ("state", "\"" ++ s.cycle.name ++ "\""),
    ("teletype", objectText "  " (teletypeEntries s.teletype))]

/-- A snapshot as an indented JSON object. -/
def json (s : Snapshot) : String := objectText "" s.entries

end Snapshot

end Pdp8
