/-!
# Pdp8.Panel.Signal — the signals of the front panel

Switches and keys are inputs, driven from outside; lights are outputs.  A register's signal is as
wide as the register, every other signal is a single line.
-/

namespace Pdp8

/-- A signal of the front panel. -/
inductive Signal
  | switchRegister
  | stepSwitch
  | instField
  | dataField
  | memProtect
  | deposit
  | examine
  | loadAddress
  | continueKey
  | start
  | stop
  | accumulator
  | memoryAddress
  | memoryBuffer
  | instructionRegister
  | fetch
  | defer
  | execute
  | wordCount
  | currentAddress
  | dataBreak
  | interruptOn
  | run
  | extendedAddress
  | link
  deriving DecidableEq, Repr

namespace Signal

/-- Every signal, inputs first. -/
def all : List Signal :=
  [.switchRegister, .stepSwitch, .instField, .dataField, .memProtect, .deposit, .examine,
    .loadAddress, .continueKey, .start, .stop, .accumulator, .memoryAddress, .memoryBuffer,
    .instructionRegister, .fetch, .defer, .execute, .wordCount, .currentAddress, .dataBreak,
    .interruptOn, .run, .extendedAddress, .link]

/-- The name of a signal. -/
def name : Signal → String
  | .switchRegister => "SwitchRegister"
  | .stepSwitch => "Step"
  | .instField => "InstField"
  | .dataField => "DataField"
  | .memProtect => "MemProtect"
  | .deposit => "Deposit"
  | .examine => "Examine"
  | .loadAddress => "LoadAddress"
  | .continueKey => "Continue"
  | .start => "Start"
  | .stop => "Stop"
  | .accumulator => "Accumulator"
  | .memoryAddress => "MemoryAddress"
  | .memoryBuffer => "MemoryBuffer"
  | .instructionRegister => "InstructionRegister"
  | .fetch => "Fetch"
  | .defer => "Defer"
  | .execute => "Execute"
  | .wordCount => "WordCount"
  | .currentAddress => "CurrentAddress"
  | .dataBreak => "Break"
  | .interruptOn => "InterruptOn"
  | .run => "Run"
  | .extendedAddress => "ExtendedAddress"
  | .link => "Link"

/-- The number of pins that carry a signal. -/
def width : Signal → Nat
  | .switchRegister => 12
  | .accumulator => 12
  | .memoryAddress => 12
  | .memoryBuffer => 12
  | .instructionRegister => 3
  | _ => 1

/-- Whether the outside drives a signal. -/
def isInput : Signal → Bool
  | .switchRegister => true
  | .stepSwitch => true
  | .instField => true
  | .dataField => true
  | .memProtect => true
  | .deposit => true
  | .examine => true
  | .loadAddress => true
  | .continueKey => true
  | .start => true
  | .stop => true
  | _ => false

/-- The signal with a given name. -/
def ofName? (s : String) : Option Signal := all.find? fun signal => signal.name == s

theorem mem_all (s : Signal) : s ∈ all := by cases s <;> decide

end Signal

end Pdp8
