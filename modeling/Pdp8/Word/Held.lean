import Pdp8.Word.HostInteger

/-!
# Pdp8.Word.Held — words in the registers of the host

The host has no register of 3, 7 or 12 bits.  A word is held in the next one that the host has, of
8 or 16 bits, with zeros above the word.  The operators work on whole registers and mask what they
have to: a sum may need one bit more than a word has, a complement sets every bit, and a mask may
come with bits that no word has.  Host arithmetic that overflows has no result.
-/

namespace Pdp8

/-! ## Host arithmetic -/

namespace HostInteger

/-- How many bits there are for the value, beside the sign. -/
def valueBits (k : HostInteger) : Nat := if k.signed then k.bits - 1 else k.bits

/-- A register taken for an integer of the type; bits that the type has not are dropped. -/
def cast {n : Nat} (k : HostInteger) (x : BitVec n) : Int :=
  if k.signed then (x.setWidth k.bits).toInt else (x.setWidth k.bits).toNat

/-- A number as an integer of the type, if the type has it. -/
def fit? (k : HostInteger) (v : Int) : Option Int :=
  if k.min ≤ v ∧ v ≤ k.max then some v else none

/-- A number as a register of `n` bits, if one can have it. -/
def register? (n : Nat) (v : Int) : Option (BitVec n) := (fit? ⟨n, false⟩ v).map (BitVec.ofInt n)

/-- The integer types of the host, among them those of the size of a pointer. -/
def all : List HostInteger :=
  [8, 16, 32, 64].flatMap fun bits => [⟨bits, false⟩, ⟨bits, true⟩]

/-- The sum of two registers, if it does not overflow. -/
def add? {n : Nat} (x y : BitVec n) : Option (BitVec n) :=
  if x.uaddOverflow y then none else some (x + y)

/-- A shift within the register, which may lose bits, but must not be as long as the register. -/
def shiftLeft? {n : Nat} (x : BitVec n) (k : Nat) : Option (BitVec n) :=
  if k < n then some (x <<< k) else none

/-- The same to the right. -/
def shiftRight? {n : Nat} (x : BitVec n) (k : Nat) : Option (BitVec n) :=
  if k < n then some (x >>> k) else none

end HostInteger

open HostInteger

/-- A word of `w` bits in a register of `n`.  Nothing but the operators below keeps the rest of the
register zero. -/
structure Held (w n : Nat) where
  bits : BitVec n
  deriving DecidableEq, Repr

namespace Held

/-- The bits of a register that a word has. -/
def valueMask (w n : Nat) : BitVec n := (1#n <<< w) - 1#n

variable {w n : Nat}

/-- The register that holds a word. -/
def hold (n : Nat) (x : BitVec w) : Held w n := ⟨x.setWidth n⟩

/-! ## Constructors -/

def zero : Held w n := ⟨0#n⟩

def one : Held w n := ⟨1#n⟩

def greatest : Held w n := ⟨valueMask w n⟩

/-- A word that is given in the text of the program, which is refused when it is out of range. -/
def constant? (x : BitVec n) : Option (Held w n) :=
  if (greatest : Held w n).bits < x then none else some ⟨(greatest : Held w n).bits &&& x⟩

/-- The low bits, as of a wide value that is gated into a narrow register. -/
def truncating (x : BitVec n) : Held w n := ⟨x &&& valueMask w n⟩

/-! ## Operators -/

variable (a b : Held w n) (m : BitVec n) (k : Nat)

/-- Bit `k`, counted from the least significant end. -/
def bit? : Option Bool :=
  if k < w then (shiftRight? a.bits k).map fun x => x &&& 1#n != 0#n else some false

/-- The sum, and whether there was a carry out of the word. -/
def overflowingAdd? : Option (Held w n × Bool) :=
  (add? a.bits b.bits).map fun sum => (truncating sum, decide (valueMask w n < sum))

def successor? : Option (Held w n) := (a.overflowingAdd? one).map Prod.fst

/-- The word rotated to the left within its width. -/
def rotateLeft? : Option (Held w n) :=
  if k % w = 0 then some a
  else do
    let high ← shiftLeft? a.bits (k % w)
    let low ← shiftRight? a.bits (w - k % w)
    return truncating (high ||| low)

/-- A raw mask cannot set bits with `and`, so that nothing is masked after it. -/
def andMask : Held w n := ⟨a.bits &&& m⟩

def orMask : Held w n := ⟨(a.bits ||| m) &&& valueMask w n⟩

def xorMask : Held w n := ⟨(a.bits ^^^ m) &&& valueMask w n⟩

def and : Held w n := ⟨a.bits &&& b.bits⟩

def or : Held w n := ⟨a.bits ||| b.bits⟩

def xor : Held w n := ⟨a.bits ^^^ b.bits⟩

def not : Held w n := ⟨~~~a.bits &&& valueMask w n⟩

/-! ## Numbers -/

/-- The word whose value is `v`.  A number that the register can have may still be too large for the
word. -/
def ofInt (v : Int) : Except RangeError (Held w n) :=
  match register? n v with
  | none => .error (if v < 0 then .tooSmall else .tooLarge)
  | some x => if valueMask w n < x then .error .tooLarge else .ok ⟨x⟩

/-- The word whose value is that of a host integer.  It is not checked if the type has no others. -/
def ofHost (i : HostInteger) (v : Int) : Except RangeError (Held w n) :=
  if i.signed = false ∧ i.bits ≤ w then .ok ⟨BitVec.ofInt n v⟩ else ofInt v

/-- The value as a host integer.  It is not checked if the type has that of every word. -/
def toHost (i : HostInteger) : Except RangeError Int :=
  if w ≤ i.valueBits then .ok (i.cast a.bits)
  else
    match i.fit? a.bits.toNat with
    | none => .error .tooLarge
    | some v => .ok v

/-- Whether a word and a host integer are equal, which is found by making a word of the latter. -/
def equalsHost (i : HostInteger) (v : Int) : Bool :=
  match (ofHost i v : Except RangeError (Held w n)) with
  | .ok b => a.bits == b.bits
  | .error _ => false

/-- The order of words. -/
def compare : Ordering := Ord.compare a.bits.toNat b.bits.toNat

/-- The order of a word and an unsigned number, of which one that is no word is the greater. -/
def compareNat (v : Nat) : Ordering :=
  match (ofInt v : Except RangeError (Held w n)) with
  | .ok b => a.compare b
  | .error _ => .lt

/-! ## From one width to another -/

/-- A field number or a page offset as a word. -/
def widen (a : Held w 8) : Held 12 16 := ⟨a.bits.setWidth 16⟩

def topThreeBits (a : Held 12 16) : Held 3 8 := ⟨(a.bits >>> 9).setWidth 8⟩

def middleFieldBits (a : Held 12 16) : Held 3 8 := ⟨((a.bits >>> 3) &&& 7#16).setWidth 8⟩

/-- A field number in bits 5 to 3 of a word. -/
def shiftedIntoBits5To3 (a : Held 3 8) : Held 12 16 := ⟨a.bits.setWidth 16 <<< 3⟩

end Held

end Pdp8
