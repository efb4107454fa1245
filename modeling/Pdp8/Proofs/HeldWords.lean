import Mathlib.Tactic.SplitIfs
import Pdp8.Proofs.Rotations
import Pdp8.Word.Held

/-!
# Pdp8.Proofs.HeldWords — the operators on host registers are those on words

A word is held in a wider register with zeros above it.  Each operator on registers is the one on
words: it leaves the zeros in place, and none of the host's arithmetic overflows.
-/

namespace Pdp8

open HostInteger

namespace HostInteger

variable {n : Nat} {x y : BitVec n} {k : Nat}

theorem add?_of_lt (h : x.toNat + y.toNat < Word.modulus n) : add? x y = some (x + y) := by
  have hover : x.uaddOverflow y = false := decide_eq_false (Nat.not_le.mpr h)
  unfold add?
  rw [hover, if_neg Bool.false_ne_true]

theorem shiftLeft?_of_lt (h : k < n) : shiftLeft? x k = some (x <<< k) := if_pos h

theorem shiftRight?_of_lt (h : k < n) : shiftRight? x k = some (x >>> k) := if_pos h

end HostInteger

namespace Held

variable {w n : Nat}

/-- Nothing stands above the word. -/
def Within (a : Held w n) : Prop := a.bits.toNat < Word.modulus w

/-- The number that is in the register. -/
def value (a : Held w n) : Nat := a.bits.toNat

/-! ## What a register holds -/

theorem eq_of_toNat_eq {a b : Held w n} (hab : a.bits.toNat = b.bits.toNat) : a = b :=
  congrArg Held.mk (BitVec.eq_of_toNat_eq hab)

theorem toNat_hold (h : w < n) (x : BitVec w) : (hold n x).bits.toNat = x.toNat :=
  BitVec.toNat_setWidth_of_le (Nat.le_of_lt h)

theorem getLsbD_hold (h : w < n) (x : BitVec w) (k : Nat) :
    (hold n x).bits.getLsbD k = x.getLsbD k :=
  Word.getLsbD_register (Nat.le_of_lt h) x k

theorem within_hold (h : w < n) (x : BitVec w) : (hold n x).Within := by
  unfold Within
  rw [toNat_hold h]
  exact x.isLt

theorem exists_hold (h : w < n) {a : Held w n} (ha : a.Within) : ∃ x : BitVec w, a = hold n x := by
  refine ⟨a.bits.setWidth w, eq_of_toNat_eq ?_⟩
  rw [toNat_hold h, BitVec.toNat_setWidth]
  exact (Nat.mod_eq_of_lt ha).symm

/-- The word can be read back. -/
theorem setWidth_hold (h : w < n) (x : BitVec w) : (hold n x).bits.setWidth w = x := by
  unfold hold
  rw [BitVec.setWidth_setWidth_of_le x (Nat.le_of_lt h), BitVec.setWidth_eq]

theorem hold_inj (h : w < n) {x y : BitVec w} (hxy : (hold n x).bits = (hold n y).bits) :
    x = y := by
  rw [← setWidth_hold h x, hxy, setWidth_hold h y]

/-! ## The mask -/

theorem toNat_one (h : w < n) : (1#n).toNat = 1 := by
  rw [BitVec.toNat_ofNat]
  exact Nat.mod_eq_of_lt (Nat.one_lt_two_pow (by omega))

theorem toNat_valueMask (h : w < n) : (valueMask w n).toNat = Word.modulus w - 1 := by
  have hshift : (1#n <<< w).toNat = 2 ^ w := by
    rw [BitVec.toNat_shiftLeft, toNat_one h, Nat.shiftLeft_eq, Nat.one_mul]
    exact Nat.mod_eq_of_lt (Nat.pow_lt_pow_right (by decide) h)
  have hone : 1#n ≤ 1#n <<< w := by
    rw [BitVec.le_def, hshift, toNat_one h]
    exact Nat.one_le_two_pow
  unfold valueMask
  rw [BitVec.toNat_sub_of_le hone, hshift, toNat_one h]
  rfl

theorem getLsbD_valueMask (h : w < n) (i : Nat) : (valueMask w n).getLsbD i = decide (i < w) := by
  unfold BitVec.getLsbD
  rw [toNat_valueMask h]
  exact Nat.testBit_two_pow_sub_one w i

/-- What is masked is a word. -/
theorem and_valueMask (h : w < n) (m : BitVec n) :
    m &&& valueMask w n = (m.setWidth w).setWidth n :=
  Word.and_mask (getLsbD_valueMask h) m

/-- A register that is greater than the mask is out of range. -/
theorem valueMask_lt_iff (h : w < n) (m : BitVec n) :
    valueMask w n < m ↔ Word.modulus w ≤ m.toNat := by
  have hpos : 0 < Word.modulus w := Nat.two_pow_pos w
  rw [BitVec.lt_def, toNat_valueMask h]
  omega

theorem truncating_eq (h : w < n) (m : BitVec n) :
    (truncating m : Held w n) = hold n (m.setWidth w) :=
  congrArg Held.mk (and_valueMask h m)

/-! ## Constructors -/

theorem zero_eq (h : w < n) : (zero : Held w n) = hold n 0 := by
  apply eq_of_toNat_eq
  rw [toNat_hold h]
  rfl

theorem one_eq (hw : 0 < w) (h : w < n) : (one : Held w n) = hold n 1 := by
  apply eq_of_toNat_eq
  rw [toNat_hold h]
  exact (toNat_one h).trans (toNat_one hw).symm

theorem greatest_eq (h : w < n) : (greatest : Held w n) = hold n (BitVec.allOnes w) := by
  apply eq_of_toNat_eq
  rw [toNat_hold h, BitVec.toNat_allOnes]
  exact toNat_valueMask h

theorem constant?_eq (h : w < n) (m : BitVec n) : (constant? m : Option (Held w n)) =
    if m.toNat < Word.modulus w then some (hold n (m.setWidth w)) else none := by
  have hbits : (greatest : Held w n).bits &&& m = (m.setWidth w).setWidth n := by
    rw [BitVec.and_comm]
    exact and_valueMask h m
  have hrange : (greatest : Held w n).bits < m ↔ Word.modulus w ≤ m.toNat := valueMask_lt_iff h m
  unfold constant?
  rw [hbits]
  split_ifs with hlt hm hm
  · exact absurd hm (Nat.not_lt.mpr (hrange.mp hlt))
  · rfl
  · rfl
  · exact absurd (hrange.mpr (Nat.not_lt.mp hm)) hlt

/-! ## Operators bit by bit -/

theorem and_hold (x y : BitVec w) : (hold n x).and (hold n y) = hold n (x &&& y) :=
  congrArg Held.mk BitVec.setWidth_and.symm

theorem or_hold (x y : BitVec w) : (hold n x).or (hold n y) = hold n (x ||| y) :=
  congrArg Held.mk BitVec.setWidth_or.symm

theorem xor_hold (x y : BitVec w) : (hold n x).xor (hold n y) = hold n (x ^^^ y) :=
  congrArg Held.mk BitVec.setWidth_xor.symm

theorem not_hold (h : w < n) (x : BitVec w) : (hold n x).not = hold n (~~~x) := by
  unfold Held.not
  rw [and_valueMask h, BitVec.setWidth_not (Nat.le_of_lt h), setWidth_hold h]
  rfl

/-- The bits that only the mask has are not set, as the word has none there. -/
theorem andMask_hold (h : w < n) (x : BitVec w) (m : BitVec n) :
    (hold n x).andMask m = hold n (x &&& m.setWidth w) := by
  refine congrArg Held.mk (BitVec.eq_of_getLsbD_eq fun i hi => ?_)
  rw [BitVec.getLsbD_and, getLsbD_hold h, BitVec.getLsbD_setWidth, BitVec.getLsbD_and,
    BitVec.getLsbD_setWidth, decide_eq_true hi, Bool.true_and]
  by_cases hw : i < w
  · rw [decide_eq_true hw, Bool.true_and]
  · rw [BitVec.getLsbD_of_ge x i (Nat.not_lt.mp hw), Bool.false_and, Bool.false_and]

theorem orMask_hold (h : w < n) (x : BitVec w) (m : BitVec n) :
    (hold n x).orMask m = hold n (x ||| m.setWidth w) := by
  unfold orMask
  rw [and_valueMask h, BitVec.setWidth_or, setWidth_hold h]
  rfl

theorem xorMask_hold (h : w < n) (x : BitVec w) (m : BitVec n) :
    (hold n x).xorMask m = hold n (x ^^^ m.setWidth w) := by
  unfold xorMask
  rw [and_valueMask h, BitVec.setWidth_xor, setWidth_hold h]
  rfl

/-- What is left of a register under a mask of one. -/
theorem and_one_ne_zero (h : 0 < n) (m : BitVec n) : (m &&& 1#n != 0#n) = m.getLsbD 0 := by
  have hone : BitVec.setWidth n 1#1 ≠ 0#n := by
    intro hzero
    have hnat := congrArg BitVec.toNat hzero
    rw [BitVec.toNat_setWidth_of_le h] at hnat
    cases hnat
  rw [BitVec.and_one_eq_setWidth_ofBool_getLsbD]
  cases m.getLsbD 0 with
  | false => simp
  | true => simpa using hone

theorem bit?_hold (h : w < n) (x : BitVec w) (k : Nat) :
    (hold n x).bit? k = some (x.getLsbD k) := by
  unfold bit?
  by_cases hk : k < w
  · rw [if_pos hk, shiftRight?_of_lt (Nat.lt_trans hk h), Option.map_some,
      and_one_ne_zero (Nat.zero_lt_of_lt h), BitVec.getLsbD_ushiftRight, Nat.add_zero,
      getLsbD_hold h]
  · rw [if_neg hk, BitVec.getLsbD_of_ge x k (Nat.not_lt.mp hk)]

/-! ## Sums and rotations -/

/-- The sum of two words has at most one bit more than a word, for which there is room. -/
theorem overflowingAdd?_hold (h : w < n) (x y : BitVec w) :
    (hold n x).overflowingAdd? (hold n y) =
      some (hold n (Word.addCarry x y).1, (Word.addCarry x y).2) := by
  have hx := Word.toNat_lt_modulus x
  have hy := Word.toNat_lt_modulus y
  have hdouble : Word.modulus w * 2 ≤ Word.modulus n := Word.modulus_le h
  have hroom : (hold n x).bits.toNat + (hold n y).bits.toNat < Word.modulus n := by
    rw [toNat_hold h, toNat_hold h]
    omega
  have hsum : ((hold n x).bits + (hold n y).bits).toNat = x.toNat + y.toNat := by
    rw [BitVec.toNat_add, ← toNat_hold h x, ← toNat_hold h y]
    exact Nat.mod_eq_of_lt hroom
  have hword : ((hold n x).bits + (hold n y).bits).setWidth w = x + y := by
    rw [BitVec.setWidth_add _ _ (Nat.le_of_lt h), setWidth_hold h, setWidth_hold h]
  unfold overflowingAdd? Word.addCarry
  rw [add?_of_lt hroom, Option.map_some]
  simp only [truncating_eq h, hword, valueMask_lt_iff h, hsum]

theorem successor?_hold (hw : 0 < w) (h : w < n) (x : BitVec w) :
    (hold n x).successor? = some (hold n (Word.successor x)) := by
  unfold successor?
  rw [one_eq hw h, overflowingAdd?_hold h]
  rfl

theorem setWidth_shiftLeft_hold (h : w < n) (x : BitVec w) (k : Nat) :
    ((hold n x).bits <<< k).setWidth w = x <<< k :=
  Word.setWidth_shiftLeft_register (Nat.le_of_lt h) x k

theorem setWidth_shiftRight_hold (h : w < n) (x : BitVec w) (k : Nat) :
    ((hold n x).bits >>> k).setWidth w = x >>> k :=
  Word.setWidth_shiftRight_register (Nat.le_of_lt h) x k

theorem rotateLeft?_hold (hw : 0 < w) (h : w < n) (x : BitVec w) (k : Nat) :
    (hold n x).rotateLeft? k = some (hold n (x.rotateLeft k)) := by
  have hk : k % w < w := Nat.mod_lt k hw
  unfold rotateLeft?
  by_cases hzero : k % w = 0
  · rw [if_pos hzero, Word.rotateLeft_of_mod_eq_zero x hzero]
  · have hleft : k % w < n := by omega
    have hright : w - k % w < n := by omega
    -- masking commutes with both shifts, so the masked register is the rotated word
    rw [if_neg hzero, shiftLeft?_of_lt hleft, shiftRight?_of_lt hright, BitVec.rotateLeft_def,
      ← setWidth_shiftLeft_hold h, ← setWidth_shiftRight_hold h, ← BitVec.setWidth_or]
    exact congrArg some (truncating_eq h _)

/-! ## From one width to another -/

theorem widen_hold (h : w < 8) (x : BitVec w) : (hold 8 x).widen = hold 16 (x.setWidth 12) := by
  apply eq_of_toNat_eq
  unfold widen
  rw [toNat_hold (by decide), BitVec.toNat_setWidth_of_le (by omega),
    BitVec.toNat_setWidth_of_le (by omega), toNat_hold h]

/-- The shift leaves only three bits. -/
theorem topThreeBits_hold (x : Word) : (hold 16 x).topThreeBits = hold 8 x.opcode := by
  have hx := x.isLt
  apply eq_of_toNat_eq
  unfold topThreeBits
  rw [toNat_hold (by decide), Word.toNat_opcode, BitVec.toNat_setWidth, BitVec.toNat_ushiftRight,
    toNat_hold (by decide), Nat.shiftRight_eq_div_pow]
  omega

theorem middleFieldBits_hold (x : Word) : (hold 16 x).middleFieldBits = hold 8 x.fieldBits := by
  have hmask : (hold 16 x).bits >>> 3 &&& 7#16 =
      (((hold 16 x).bits >>> 3).setWidth 3).setWidth 16 := and_valueMask (w := 3) (by decide) _
  apply eq_of_toNat_eq
  unfold middleFieldBits
  rw [hmask, toNat_hold (by decide), Word.toNat_fieldBits, BitVec.toNat_setWidth,
    BitVec.toNat_setWidth_of_le (by decide), BitVec.toNat_setWidth, BitVec.toNat_ushiftRight,
    toNat_hold (by decide), Nat.shiftRight_eq_div_pow]
  omega

/-- There is room for the field number where it is moved to. -/
theorem shiftedIntoBits5To3_hold (f : FieldNumber) :
    (hold 8 f).shiftedIntoBits5To3 = hold 16 f.toBits5To3 := by
  have hf := f.isLt
  apply eq_of_toNat_eq
  unfold shiftedIntoBits5To3
  rw [toNat_hold (by decide), FieldNumber.toNat_toBits5To3, BitVec.toNat_shiftLeft,
    BitVec.toNat_setWidth_of_le (by decide), toNat_hold (by decide), Nat.shiftLeft_eq]
  omega

end Held

end Pdp8
