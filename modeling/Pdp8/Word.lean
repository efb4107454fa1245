/-!
# Pdp8.Word — the machine's words

A word is a bit vector of the width the hardware gives it: 12 bits for the registers and for
every location of core, 3 for a memory field or an opcode, 7 for an offset within a page.
A number enters a word either through `Word.ofInt`, which refuses what does not fit, or by
truncation, which keeps the low bits as a wide value gated into a narrow register does.
-/

namespace Pdp8

/-- A register or a location of core. -/
abbrev Word := BitVec 12

/-- The number of a 4K memory field. -/
abbrev FieldNumber := BitVec 3

/-- The offset of an operand within its page. -/
abbrev PageOffset := BitVec 7

/-- A teletype character. -/
abbrev Byte := BitVec 8

/-- Why a number is not the value of a word. -/
inductive RangeError
  | tooLarge
  | tooSmall
  deriving DecidableEq, Repr

/-- The wording of a range error. -/
def RangeError.message : RangeError → String
  | .tooLarge => "value is too large"
  | .tooSmall => "value is too small"

namespace Word

variable {w : Nat}

/-- The number of words of a width, `2 ^ w`. -/
def modulus (w : Nat) : Nat := Nat.pow 2 w

theorem modulus_le {k l : Nat} (h : k ≤ l) : modulus k ≤ modulus l :=
  Nat.pow_le_pow_right Nat.zero_lt_two h

/-- The word whose value is `v`, if `v` lies in `0 … 2 ^ w - 1`. -/
def ofInt (w : Nat) (v : Int) : Except RangeError (BitVec w) :=
  if v < 0 then .error .tooSmall
  else if v < modulus w then .ok (BitVec.ofNat w v.toNat)
  else .error .tooLarge

theorem toNat_lt_modulus (a : BitVec w) : a.toNat < modulus w := a.isLt

theorem ofInt_eq_ok_iff {v : Int} {a : BitVec w} : ofInt w v = .ok a ↔ (a.toNat : Int) = v := by
  have hlt := toNat_lt_modulus a
  unfold ofInt
  split
  · constructor
    · intro h; cases h
    · intro h; omega
  · split
    · rename_i h0 h1
      have hn : v.toNat < modulus w := by omega
      have hvalue : (BitVec.ofNat w v.toNat).toNat = v.toNat :=
        (BitVec.toNat_ofNat _ _).trans (Nat.mod_eq_of_lt hn)
      constructor
      · intro h
        cases h
        omega
      · intro h
        congr 1
        apply BitVec.eq_of_toNat_eq
        omega
    · constructor
      · intro h; cases h
      · intro h; omega

/-- The sum modulo `2 ^ w`, and whether there was a carry out of the top bit. -/
def addCarry (a b : BitVec w) : BitVec w × Bool :=
  (a + b, decide (modulus w ≤ a.toNat + b.toNat))

/-- The next value; the greatest wraps to zero, as the program counter does. -/
def successor (a : BitVec w) : BitVec w := a + 1

/-- The opcode, which is also what the panel's instruction register lights show. -/
def opcode (a : Word) : BitVec 3 := a.extractLsb' 9 3

/-- Bits 5 to 3, which hold the field in a memory extension instruction. -/
def fieldBits (a : Word) : FieldNumber := a.extractLsb' 3 3

/-- The opcode is the first octal digit. -/
theorem toNat_opcode (a : Word) : a.opcode.toNat = a.toNat / 0o1000 := by
  have hlt := a.isLt
  unfold opcode
  rw [BitVec.extractLsb'_toNat, Nat.shiftRight_eq_div_pow]
  omega

/-- The field is the third octal digit. -/
theorem toNat_fieldBits (a : Word) : a.fieldBits.toNat = a.toNat / 8 % 8 := by
  unfold fieldBits
  rw [BitVec.extractLsb'_toNat, Nat.shiftRight_eq_div_pow]

end Word

/-- A field number moved into bits 5 to 3 of a word. -/
def FieldNumber.toBits5To3 (f : FieldNumber) : Word := f.setWidth 12 <<< 3

theorem FieldNumber.toNat_toBits5To3 (f : FieldNumber) : f.toBits5To3.toNat = 8 * f.toNat := by
  have hlt := f.isLt
  unfold FieldNumber.toBits5To3
  rw [BitVec.toNat_shiftLeft, BitVec.toNat_setWidth_of_le (by decide), Nat.shiftLeft_eq]
  omega

end Pdp8
