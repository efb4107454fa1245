import Pdp8.Processor.Microcode

/-!
# Pdp8.Proofs.Rotations — the places of a word are a cycle

A rotation to the left takes each bit from the place that is so many places below it, counted
modulo the width.  So rotations add up, whole turns do nothing, and one to the right is one to the
left by the places that are missing to a turn.  L.AC is turned by one place after another in a
register with room for more, which comes to a rotation of its 13 bits (`toBits_rotate`).
-/

namespace Pdp8

namespace Word

/-! ## Words in wider registers -/

section Registers

variable {w n : Nat}

/-- Nothing but zeros stands above a word in a wider register. -/
theorem getLsbD_register (h : w ≤ n) (x : BitVec w) (i : Nat) :
    (x.setWidth n).getLsbD i = x.getLsbD i := by
  unfold BitVec.getLsbD
  rw [BitVec.toNat_setWidth_of_le h]

/-- What is masked with ones below `w` is a word of `w` bits. -/
theorem and_mask {mask : BitVec n} (hmask : ∀ i, mask.getLsbD i = decide (i < w)) (m : BitVec n) :
    m &&& mask = (m.setWidth w).setWidth n := by
  apply BitVec.eq_of_getLsbD_eq
  intro i hi
  rw [BitVec.getLsbD_and, hmask, BitVec.getLsbD_setWidth, BitVec.getLsbD_setWidth,
    decide_eq_true hi, Bool.true_and, Bool.and_comm]

/-- What a shift to the left moves above the word, and what the register loses, is not of the
word. -/
theorem setWidth_shiftLeft_register (h : w ≤ n) (x : BitVec w) (k : Nat) :
    ((x.setWidth n) <<< k).setWidth w = x <<< k := by
  apply BitVec.eq_of_getLsbD_eq
  intro i hi
  rw [BitVec.getLsbD_setWidth, BitVec.getLsbD_shiftLeft, BitVec.getLsbD_shiftLeft,
    getLsbD_register h, decide_eq_true hi, decide_eq_true (Nat.lt_of_lt_of_le hi h), Bool.true_and]

theorem setWidth_shiftRight_register (h : w ≤ n) (x : BitVec w) (k : Nat) :
    ((x.setWidth n) >>> k).setWidth w = x >>> k := by
  rw [← BitVec.setWidth_ushiftRight h, BitVec.setWidth_setWidth_of_le _ h, BitVec.setWidth_eq]

end Registers

/-! ## Places -/

/-- The place of a word of `w` bits that a number stands for when the places are counted on and on
around the word. -/
def place (w : Nat) (v : Int) : Nat := (v % w).toNat

variable {w : Nat}

theorem natCast_place (hw : 0 < w) (v : Int) : (place w v : Int) = v % w :=
  Int.toNat_of_nonneg (Int.emod_nonneg v (by omega))

theorem place_lt (hw : 0 < w) (v : Int) : place w v < w := by
  have hlt := Int.emod_lt_of_pos v (Int.natCast_pos.mpr hw)
  have hcast := natCast_place hw v
  omega

theorem place_sub_mod (v : Int) (k : Nat) : place w (v - (k % w : Nat)) = place w (v - k) := by
  unfold place
  rw [Int.natCast_emod, Int.sub_emod_emod]

/-- Going down from a place, it does not matter by how many turns it was reached. -/
theorem place_place_sub (hw : 0 < w) (v u : Int) :
    place w (place w v - u) = place w (v - u) := by
  rw [place, natCast_place hw, Int.emod_sub_emod, place]

/-! ## Rotations of bit vectors -/

variable (x : BitVec w)

/-- A word that turns by nothing, or by whole turns, stays as it is. -/
theorem rotateLeft_of_mod_eq_zero {k : Nat} (h : k % w = 0) : x.rotateLeft k = x := by
  rw [BitVec.rotateLeft_def, h, Nat.sub_zero, BitVec.shiftLeft_zero,
    BitVec.ushiftRight_eq_zero (Nat.le_refl w), BitVec.or_zero]

theorem rotateLeft_congr {p q : Nat} (h : p % w = q % w) : x.rotateLeft p = x.rotateLeft q := by
  rw [← BitVec.rotateLeft_mod_eq_rotateLeft, h, BitVec.rotateLeft_mod_eq_rotateLeft]

/-- A rotation to the left takes each bit from `k` places below. -/
theorem getLsbD_rotateLeft_place (k : Nat) {i : Nat} (hi : i < w) :
    (x.rotateLeft k).getLsbD i = x.getLsbD (place w (i - k)) := by
  have hk : k % w < w := Nat.mod_lt k (by omega)
  rw [BitVec.getLsbD_rotateLeft, ← place_sub_mod]
  by_cases hlow : i < k % w
  · -- below the bottom it goes on at the top
    have hplace : place w (i - (k % w : Nat)) = w - k % w + i := by
      unfold place
      rw [← Int.add_emod_right, Int.emod_eq_of_lt (by omega) (by omega)]
      omega
    rw [decide_eq_true hlow, cond_true, hplace]
  · have hplace : place w (i - (k % w : Nat)) = i - k % w := by
      unfold place
      rw [Int.emod_eq_of_lt (by omega) (by omega)]
      omega
    rw [decide_eq_false hlow, cond_false, decide_eq_true hi, Bool.true_and, hplace]

/-- Rotations add up, modulo the width. -/
theorem rotateLeft_rotateLeft (p q : Nat) :
    (x.rotateLeft p).rotateLeft q = x.rotateLeft ((p + q) % w) := by
  apply BitVec.eq_of_getLsbD_eq
  intro i hi
  have hw : 0 < w := Nat.zero_lt_of_lt hi
  have hsum : (i : Int) - q - p = i - (p + q : Nat) := by omega
  rw [getLsbD_rotateLeft_place _ q hi, getLsbD_rotateLeft_place _ p (place_lt hw _),
    place_place_sub hw, hsum, BitVec.rotateLeft_mod_eq_rotateLeft, getLsbD_rotateLeft_place _ _ hi]

/-- A rotation to the right is one to the left by the places that are missing to a turn. -/
theorem rotateRight_eq_rotateLeft (k : Nat) : x.rotateRight k = x.rotateLeft (w - k % w) := by
  by_cases hzero : k % w = 0
  · rw [hzero, Nat.sub_zero, rotateLeft_of_mod_eq_zero x (Nat.mod_self w), BitVec.rotateRight_def,
      hzero, Nat.sub_zero, BitVec.ushiftRight_zero, BitVec.shiftLeft_eq_zero (Nat.le_refl w),
      BitVec.or_zero]
  · rcases Nat.eq_zero_or_pos w with rfl | hw
    · exact BitVec.eq_of_toNat_eq (by omega)
    · have hk : k % w < w := Nat.mod_lt k hw
      have hmissing : (w - k % w) % w = w - k % w := Nat.mod_eq_of_lt (by omega)
      have hback : w - (w - k % w) = k % w := by omega
      rw [BitVec.rotateRight_def, BitVec.rotateLeft_def, hmissing, hback, BitVec.or_comm]

/-- A rotation to the right takes each bit from `k` places above. -/
theorem getLsbD_rotateRight_place (k : Nat) {i : Nat} (hi : i < w) :
    (x.rotateRight k).getLsbD i = x.getLsbD (place w (i + k)) := by
  have hk : k % w < w := Nat.mod_lt k (by omega)
  have hturn : (i : Int) - (w - k % w : Nat) = i + (k % w : Nat) - w := by omega
  have hplace : place w (i - (w - k % w : Nat)) = place w (i + k) := by
    unfold place
    rw [hturn, Int.sub_emod_right, Int.natCast_emod, Int.add_emod_emod]
  rw [rotateRight_eq_rotateLeft, getLsbD_rotateLeft_place _ _ hi, hplace]

end Word

/-! ## The link and AC -/

namespace LinkAc

variable (r : LinkAc) (left : Bool) (v : BitVec 13) (k : Nat)

theorem linkBit_eq : linkBit = BitVec.twoPow 16 12 := rfl

theorem getLsbD_linkAcMask (i : Nat) : linkAcMask.getLsbD i = decide (i < 13) :=
  Nat.testBit_two_pow_sub_one 13 i

/-- The register has the 13 bits of L.AC, and zeros above them. -/
theorem toRegister_eq : r.toRegister = r.toBits.setWidth 16 := by
  apply BitVec.eq_of_getLsbD_eq
  intro i hi
  have hlink : (if r.link then linkBit else 0).getLsbD i = (r.link && decide (12 = i)) := by
    cases r.link with
    | false =>
      rw [if_neg Bool.false_ne_true, Bool.false_and]
      exact BitVec.getLsbD_zero
    | true =>
      rw [if_pos rfl, linkBit_eq, BitVec.getLsbD_twoPow]
      rfl
  rw [toRegister, BitVec.getLsbD_or, hlink, Word.getLsbD_register (by decide),
    Word.getLsbD_register (by decide), toBits_eq, BitVec.getLsbD_cons]
  by_cases htop : i = 12
  · have hac : r.ac.getLsbD i = false := BitVec.getLsbD_of_ge r.ac i (by omega)
    rw [if_pos htop, decide_eq_true htop.symm, Bool.and_true, hac, Bool.false_or]
  · rw [if_neg htop, decide_eq_false fun h => htop h.symm, Bool.and_false, Bool.or_false]

theorem toBits_ofRegister : (ofRegister (v.setWidth 16)).toBits = v := by
  have hlink : (v.setWidth 16 &&& linkBit != 0) = v.msb := by
    rw [linkBit_eq, BitVec.and_twoPow, Word.getLsbD_register (by decide),
      BitVec.msb_eq_getLsbD_last]
    cases v.getLsbD 12 with
    | false => rfl
    | true => rfl
  have hac : (v.setWidth 16).setWidth 12 = v.setWidth 12 :=
    BitVec.setWidth_setWidth_of_le v (by decide)
  unfold ofRegister
  rw [toBits_eq, hlink, hac]
  exact BitVec.cons_msb_setWidth v

/-- The lowest bit is all that comes in at the top: of the other bits, a shift by twelve places
leaves nothing within L.AC. -/
theorem setWidth_lowest : ((v.setWidth 16 &&& 1) <<< 12).setWidth 13 = v <<< 12 := by
  apply BitVec.eq_of_getLsbD_eq
  intro i hi
  have hi16 : i < 16 := by omega
  rw [BitVec.getLsbD_setWidth, BitVec.getLsbD_shiftLeft, BitVec.getLsbD_shiftLeft,
    decide_eq_true hi, decide_eq_true hi16, Bool.true_and, Bool.true_and]
  by_cases hlow : i < 12
  · rw [decide_eq_true hlow, Bool.not_true, Bool.false_and, Bool.false_and]
  · have htop : i = 12 := by omega
    have hone : (1 : BitVec 16).getLsbD 0 = true := rfl
    rw [htop, Nat.sub_self, BitVec.getLsbD_and, Word.getLsbD_register (by decide), hone,
      Bool.and_true]

/-- How far to the left L.AC moves in one turn to either side. -/
def stride (left : Bool) : Nat := if left then 1 else 12

theorem stride_true : stride true = 1 := rfl

theorem stride_false : stride false = 12 := rfl

theorem stride_add_stride : stride left + stride (!left) = 13 := by
  cases left <;> rfl

/-- One turn is a rotation of the 13 bits, and leaves zeros above them. -/
theorem turn_register :
    turn left (v.setWidth 16) = (v.rotateLeft (stride left)).setWidth 16 := by
  have h : 13 ≤ 16 := by decide
  unfold turn
  cases left with
  | true =>
    rw [if_pos rfl, Word.and_mask getLsbD_linkAcMask, BitVec.setWidth_or,
      Word.setWidth_shiftLeft_register h, Word.setWidth_shiftRight_register h,
      BitVec.rotateLeft_def]
    rfl
  | false =>
    rw [if_neg Bool.false_ne_true, Word.and_mask getLsbD_linkAcMask, BitVec.setWidth_or,
      Word.setWidth_shiftRight_register h, setWidth_lowest, BitVec.or_comm, BitVec.rotateLeft_def]
    rfl

/-- The loop, by induction on the turns that it has made: it has rotated by the places of them
all. -/
theorem repeat_turn :
    Nat.repeat (turn left) k (v.setWidth 16) = (v.rotateLeft (stride left * k)).setWidth 16 := by
  induction k with
  | zero => rw [Nat.repeat, Nat.mul_zero, Word.rotateLeft_of_mod_eq_zero v (Nat.zero_mod 13)]
  | succ k ih =>
    rw [Nat.repeat, ih, turn_register, Word.rotateLeft_rotateLeft,
      BitVec.rotateLeft_mod_eq_rotateLeft, Nat.mul_succ]

theorem toBits_rotate : (r.rotate left k).toBits = r.toBits.rotateLeft (stride left * k) := by
  rw [rotate, toRegister_eq, repeat_turn, toBits_ofRegister]

theorem toBits_rotateLeft : (r.rotateLeft k).toBits = r.toBits.rotateLeft k := by
  rw [rotateLeft, toBits_rotate, stride_true, Nat.one_mul]

theorem toBits_rotateRight : (r.rotateRight k).toBits = r.toBits.rotateRight k := by
  rw [rotateRight, toBits_rotate, stride_false, Word.rotateRight_eq_rotateLeft]
  exact Word.rotateLeft_congr _ (by omega)

-- RTR: bit 1 of AC becomes the link, and bit 0 and the link come in at the top of AC.
example : rotateRight 2 ⟨true, 0o0003⟩ = ⟨true, 0o6000⟩ := by decide

/-- Rotations to either side, one after the other, add up. -/
theorem toBits_rotate_rotate (left' : Bool) (k' : Nat) :
    ((r.rotate left k).rotate left' k').toBits =
      r.toBits.rotateLeft (stride left * k + stride left' * k') := by
  rw [toBits_rotate, toBits_rotate, Word.rotateLeft_rotateLeft, BitVec.rotateLeft_mod_eq_rotateLeft]

end LinkAc

end Pdp8
