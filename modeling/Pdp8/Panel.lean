import Pdp8.Panel.PinTable
import Pdp8.Word

/-!
# Pdp8.Panel — the front panel

The outside sees the panel as a vector of pins.  A write of the pins gives the settings of the
switches and the keys that have gone down since the write before it; a read gives the inputs as
last written, with the lights over them.
-/

namespace Pdp8

/-- The settings of the switches. -/
structure Switches where
  switchRegister : Word
  step : Bool
  instField : Bool
  dataField : Bool
  memProtect : Bool
  deriving DecidableEq, Repr

/-- All switches off. -/
def Switches.off : Switches := ⟨0, false, false, false, false⟩

/-- The keys that went down in a write. -/
structure Keys where
  deposit : Bool
  examine : Bool
  loadAddress : Bool
  continueKey : Bool
  start : Bool
  stop : Bool
  deriving DecidableEq, Repr

/-- No key. -/
def Keys.none : Keys := ⟨false, false, false, false, false, false⟩

/-- What the lights show. -/
structure Lights where
  accumulator : Word
  memoryAddress : Word
  memoryBuffer : Word
  instructionRegister : BitVec 3
  fetch : Bool
  defer : Bool
  execute : Bool
  interruptOn : Bool
  run : Bool
  extendedAddress : Bool
  link : Bool
  deriving DecidableEq, Repr

/-- All lights off. -/
def Lights.off : Lights :=
  ⟨0, 0, 0, 0, false, false, false, false, false, false, false⟩

/-- The value of each light signal.  There are no data break cycles, so their lights stay off. -/
def Lights.values (l : Lights) : List (Signal × Nat) :=
  [(.accumulator, l.accumulator.toNat), (.memoryAddress, l.memoryAddress.toNat),
    (.memoryBuffer, l.memoryBuffer.toNat), (.instructionRegister, l.instructionRegister.toNat),
    (.fetch, l.fetch.toNat), (.defer, l.defer.toNat), (.execute, l.execute.toNat),
    (.wordCount, 0), (.currentAddress, 0), (.dataBreak, 0),
    (.interruptOn, l.interruptOn.toNat), (.run, l.run.toNat),
    (.extendedAddress, l.extendedAddress.toNat), (.link, l.link.toNat)]

/-- A panel, with the pins as last written. -/
structure Panel where
  table : PinTable
  written : PinVector
  deriving DecidableEq, Repr

namespace Panel

/-- A panel with all pins off. -/
def ofTable (table : PinTable) : Panel := ⟨table, .off table.pinCount⟩

/-- The switches as some pins set them. -/
def switches (t : PinTable) (v : PinVector) : Switches where
  switchRegister := BitVec.ofNat 12 (t.gather .switchRegister v)
  step := t.gather .stepSwitch v != 0
  instField := t.gather .instField v != 0
  dataField := t.gather .dataField v != 0
  memProtect := t.gather .memProtect v != 0

/-- Whether a key went down between two vectors. -/
def wentDown (t : PinTable) (before after : PinVector) (key : Signal) : Bool :=
  t.gather key before == 0 && t.gather key after != 0

/-- The keys that went down between two vectors. -/
def keys (t : PinTable) (before after : PinVector) : Keys where
  deposit := wentDown t before after .deposit
  examine := wentDown t before after .examine
  loadAddress := wentDown t before after .loadAddress
  continueKey := wentDown t before after .continueKey
  start := wentDown t before after .start
  stop := wentDown t before after .stop

/-- Take in a write of the pins. -/
def accept (p : Panel) (v : PinVector) : Switches × Keys × Panel :=
  (switches p.table v, keys p.table p.written v, { p with written := v })

/-- The inputs as last written, on the pins of a table. -/
def echo (p : Panel) : PinVector :=
  (List.range p.table.pinCount).foldl
    (fun out pin => if p.table.isInputPin pin then out.set pin (p.written.get pin) else out)
    (.off p.table.pinCount)

/-- The pins as they are read: the inputs, and the lights. -/
def render (p : Panel) (l : Lights) : PinVector :=
  l.values.foldl (fun out light => p.table.spread light.1 light.2 out) p.echo

end Panel

end Pdp8
