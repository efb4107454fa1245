import Pdp8.Instruction

/-!
# Pdp8.Processor.Microcode — what operate instructions do to L.AC

The link and the accumulator form one 13-bit register, the link on top, which group 1 clears,
complements, rotates and increments in that order.  A rotation goes place by place, in a register
of the host that holds L.AC.  Group 2 tests L.AC for a skip before it changes AC.
-/

namespace Pdp8

/-- The link and the accumulator. -/
structure LinkAc where
  link : Bool
  ac : Word
  deriving DecidableEq, Repr

namespace LinkAc

/-- L.AC as one word of 13 bits. -/
def toBits (r : LinkAc) : BitVec 13 := BitVec.cons r.link r.ac

theorem toBits_eq (r : LinkAc) : r.toBits = BitVec.cons r.link r.ac := rfl

@[simp] theorem msb_toBits (r : LinkAc) : r.toBits.msb = r.link := BitVec.msb_cons

@[simp] theorem setWidth_toBits (r : LinkAc) : r.toBits.setWidth 12 = r.ac := BitVec.setWidth_cons

theorem toBits_inj {r r' : LinkAc} (h : r.toBits = r'.toBits) : r = r' := by
  obtain ⟨link, ac⟩ := r
  obtain ⟨link', ac'⟩ := r'
  have hlink : link = link' := by simpa using congrArg BitVec.msb h
  have hac : ac = ac' := by simpa using congrArg (BitVec.setWidth 12) h
  rw [hlink, hac]

/-! ## Rotations -/

/-- The bit of the link in a register of the host, which has it above AC. -/
def linkBit : BitVec 16 := 0o10000

/-- The bits of L.AC in a register of the host. -/
def linkAcMask : BitVec 16 := 0o17777

/-- L.AC in a register of the host. -/
def toRegister (r : LinkAc) : BitVec 16 := r.ac.setWidth 16 ||| if r.link then linkBit else 0

/-- The link and the accumulator out of a register. -/
def ofRegister (v : BitVec 16) : LinkAc := ⟨v &&& linkBit != 0, v.setWidth 12⟩

/-- L.AC moved by one place; the bit that falls out at one end comes in at the other. -/
def turn (left : Bool) (v : BitVec 16) : BitVec 16 :=
  if left then (v <<< 1 ||| v >>> 12) &&& linkAcMask
  else (v >>> 1 ||| (v &&& 1) <<< 12) &&& linkAcMask

/-- L.AC rotated, one place after another. -/
def rotate (left : Bool) (places : Nat) (r : LinkAc) : LinkAc :=
  ofRegister (Nat.repeat (turn left) places r.toRegister)

/-- L.AC rotated left. -/
def rotateLeft (places : Nat) (r : LinkAc) : LinkAc := r.rotate true places

/-- L.AC rotated right. -/
def rotateRight (places : Nat) (r : LinkAc) : LinkAc := r.rotate false places

/-- The two halves of AC exchanged. -/
def swapBytes (r : LinkAc) : LinkAc := { r with ac := r.ac.rotateLeft 6 }

/-! ## Addition -/

/-- A two's complement addition into AC; a carry complements the link. -/
def add (operand : Word) (r : LinkAc) : LinkAc :=
  let (sum, carry) := Word.addCarry r.ac operand
  ⟨r.link ^^ carry, sum⟩

end LinkAc

/-- The effect of a rotation; a conflicting one has none. -/
def Rotation.apply (rotation : Rotation) (r : LinkAc) : LinkAc :=
  match rotation with
  | .none => r
  | .byteSwap => r.swapBytes
  | .left => r.rotateLeft 1
  | .leftTwice => r.rotateLeft 2
  | .right => r.rotateRight 1
  | .rightTwice => r.rotateRight 2
  | .conflicting _ => r

namespace Group1

/-- CLA and CLL. -/
def clear (g : Group1) (r : LinkAc) : LinkAc :=
  ⟨r.link && !g.cll, if g.cla then 0 else r.ac⟩

/-- CMA and CML. -/
def complement (g : Group1) (r : LinkAc) : LinkAc :=
  ⟨r.link ^^ g.cml, if g.cma then ~~~r.ac else r.ac⟩

/-- IAC. -/
def increment (g : Group1) (r : LinkAc) : LinkAc := if g.iac then r.add 1 else r

/-- The effect of a group 1 instruction. -/
def apply (g : Group1) (r : LinkAc) : LinkAc :=
  g.increment (g.rotation.apply (g.complement (g.clear r)))

end Group1

namespace Group2

/-- Whether the next instruction is skipped. -/
def skips (g : Group2) (r : LinkAc) : Bool :=
  g.reverse ^^ ((g.sma && r.ac.msb) || (g.sza && r.ac == 0) || (g.snl && r.link))

/-- AC after CLA and OSR, for the given setting of the switch register. -/
def acAfter (g : Group2) (sr ac : Word) : Word :=
  let cleared := if g.cla then 0 else ac
  if g.osr then cleared ||| sr else cleared

end Group2

end Pdp8
