import Pdp8.Proofs.Architecture
import Pdp8.Proofs.Rotations

/-!
# Pdp8.Proofs.LinkAc — the link and AC as one register of 13 bits

`LinkAc.toBits` puts the link on top of AC.  Seen through it the operate instructions are those of
`Architecture`: clearing and complementing are masks, an addition is one modulo `2 ^ 13` whose
carry is the link, and group 2 leaves the link alone.
-/

namespace Pdp8

/-! ## Masks -/

section Masks

variable (link : Bool) (ac : Word)

theorem setWidth_eq_cons : ac.setWidth 13 = BitVec.cons false ac := by
  apply BitVec.eq_of_toNat_eq
  rw [BitVec.toNat_setWidth, BitVec.toNat_cons', Nat.mod_eq_of_lt (by omega)]
  simp

/-- The mask of the link. -/
theorem linkMask_eq : (0o10000 : BitVec 13) = BitVec.cons true 0 := by decide

/-- The mask of AC. -/
theorem acMask_eq : (0o7777 : BitVec 13) = BitVec.cons false (BitVec.allOnes 12) := by decide

theorem cons_and (operand : Word) :
    BitVec.cons link ac &&& (0o10000 ||| operand.setWidth 13) =
      BitVec.cons link (ac &&& operand) := by
  rw [setWidth_eq_cons, linkMask_eq, BitVec.cons_or_cons, BitVec.cons_and_cons]
  simp

theorem cons_or (operand : Word) :
    BitVec.cons link ac ||| operand.setWidth 13 = BitVec.cons link (ac ||| operand) := by
  rw [setWidth_eq_cons, BitVec.cons_or_cons, Bool.or_false]

/-- A narrower register is ORed into L.AC as it is into AC. -/
theorem cons_or_setWidth {w : Nat} (h : w ≤ 12) (x : BitVec w) :
    BitVec.cons link (ac ||| x.setWidth 12) = BitVec.cons link ac ||| x.setWidth 13 := by
  rw [← cons_or, BitVec.setWidth_setWidth (by omega)]

theorem clear_ac : BitVec.cons link ac &&& 0o10000 = BitVec.cons link 0 := by
  rw [linkMask_eq, BitVec.cons_and_cons, Bool.and_true]
  simp

theorem clear_link : BitVec.cons link ac &&& 0o7777 = BitVec.cons false ac := by
  rw [acMask_eq, BitVec.cons_and_cons, BitVec.and_allOnes, Bool.and_false]

theorem complement_ac : BitVec.cons link ac ^^^ 0o7777 = BitVec.cons link (~~~ac) := by
  rw [acMask_eq, BitVec.cons_xor_cons, BitVec.xor_allOnes, Bool.xor_false]

theorem complement_link : BitVec.cons link ac ^^^ 0o10000 = BitVec.cons (!link) ac := by
  rw [linkMask_eq, BitVec.cons_xor_cons, Bool.xor_true]
  simp

/-- Rotating AC by six places exchanges its halves. -/
theorem cons_rotateLeft_six :
    BitVec.cons link (ac.rotateLeft 6) =
      BitVec.cons link
        ((BitVec.cons link ac).extractLsb' 0 6 ++ (BitVec.cons link ac).extractLsb' 6 6) := by
  congr 1
  apply BitVec.eq_of_getLsbD_eq
  intro i hi
  rw [BitVec.getLsbD_rotateLeft, BitVec.getLsbD_append]
  by_cases h : i < 6
  · simp [h, BitVec.getLsbD_cons, show 6 + i ≠ 12 by omega]
  · simp [h, BitVec.getLsbD_cons, show i - 6 ≠ 12 by omega, show i - 6 < 6 by omega]
    omega

/-- A field in bits 5 to 3 of a word. -/
theorem shiftLeft_eq_setWidth (f : FieldNumber) :
    f.setWidth 13 <<< 3 = f.toBits5To3.setWidth 13 := by
  revert f
  decide

end Masks

namespace LinkAc

variable (r : LinkAc)

theorem getLsbD_toBits {i : Nat} (hi : i < 12) : r.toBits.getLsbD i = r.ac.getLsbD i := by
  rw [toBits, BitVec.getLsbD_cons, if_neg (by omega)]

theorem setWidth_toBits_of_le {w : Nat} (h : w ≤ 12) : r.toBits.setWidth w = r.ac.setWidth w := by
  rw [← r.setWidth_toBits, BitVec.setWidth_setWidth_of_le _ h]

theorem getLsbD_toBits_link : r.toBits.getLsbD 12 = r.link := by
  rw [toBits, BitVec.getLsbD_cons, if_pos rfl]

/-- An addition into AC that complements the link on a carry is one modulo `2 ^ 13`. -/
theorem toBits_add (operand : Word) : (r.add operand).toBits = r.toBits + operand.setWidth 13 := by
  apply BitVec.eq_of_toNat_eq
  have hac := r.ac.isLt
  have hop := operand.isLt
  have hshift (b : Bool) : b.toNat <<< 12 = b.toNat * 4096 := Nat.shiftLeft_eq _ _
  have hmodulus : Word.modulus 12 = 4096 := rfl
  simp only [add, Word.addCarry, toBits, BitVec.toNat_add, BitVec.toNat_cons', hshift, hmodulus,
    BitVec.toNat_setWidth]
  by_cases hc : 4096 ≤ r.ac.toNat + operand.toNat
  · rw [decide_eq_true hc]
    cases r.link
    · simp only [Bool.xor_true, Bool.not_false, Bool.toNat_true, Bool.toNat_false]
      omega
    · simp only [Bool.xor_true, Bool.not_true, Bool.toNat_true, Bool.toNat_false]
      omega
  · rw [decide_eq_false hc]
    cases r.link
    · simp only [Bool.xor_false, Bool.toNat_false]
      omega
    · simp only [Bool.xor_false, Bool.toNat_true]
      omega

end LinkAc

/-! ## Group 1 -/

section Group1

variable {word : Word} {g : Group1} (h : Operate.ofWord word = .group1 g) (r : LinkAc)
include h

/-- The bits of a group 1 word. -/
theorem bits_of_group1 :
    word.getLsbD 8 = false ∧ g =
      { cla := word.getLsbD 7
        cll := word.getLsbD 6
        cma := word.getLsbD 5
        cml := word.getLsbD 4
        rotation := .ofCode (word.extractLsb' 1 3)
        iac := word.getLsbD 0 } := by
  unfold Operate.ofWord at h
  split at h
  · rename_i h8
    exact ⟨h8, (Operate.group1.inj h).symm⟩
  · split at h <;> cases h

theorem toBits_clear : (g.clear r).toBits = Architecture.clear word r.toBits := by
  obtain ⟨-, rfl⟩ := bits_of_group1 h
  unfold Group1.clear Architecture.clear
  cases word.getLsbD 7 <;> cases word.getLsbD 6 <;>
    simp only [LinkAc.toBits_eq, clear_ac, clear_link, Bool.false_eq_true, if_false, if_true,
      Bool.not_true, Bool.not_false, Bool.and_true, Bool.and_false]

theorem toBits_complement : (g.complement r).toBits = Architecture.complement word r.toBits := by
  obtain ⟨-, rfl⟩ := bits_of_group1 h
  unfold Group1.complement Architecture.complement
  cases word.getLsbD 5 <;> cases word.getLsbD 4 <;>
    simp only [LinkAc.toBits_eq, complement_ac, complement_link, Bool.false_eq_true, if_false,
      if_true, Bool.xor_true, Bool.xor_false]

theorem toBits_rotation : (g.rotation.apply r).toBits = Architecture.rotate word r.toBits := by
  obtain ⟨-, rfl⟩ := bits_of_group1 h
  have hcode : (word.extractLsb' 1 3).toNat = word.toNat / 2 % 8 := by
    rw [BitVec.extractLsb'_toNat, Nat.shiftRight_eq_div_pow]
  unfold Rotation.ofCode Architecture.rotate
  rw [hcode]
  have hlt : word.toNat / 2 % 8 < 8 := Nat.mod_lt _ (by omega)
  generalize word.toNat / 2 % 8 = n at hlt
  match n, hlt with
  | 0, _ => rfl
  | 1, _ => exact (cons_rotateLeft_six r.link r.ac).trans (by rw [r.msb_toBits]; rfl)
  | 2, _ => exact r.toBits_rotateLeft 1
  | 3, _ => exact r.toBits_rotateLeft 2
  | 4, _ => exact r.toBits_rotateRight 1
  | 5, _ => exact r.toBits_rotateRight 2
  | 6, _ => rfl
  | 7, _ => rfl

theorem toBits_increment : (g.increment r).toBits = Architecture.increment word r.toBits := by
  obtain ⟨-, rfl⟩ := bits_of_group1 h
  unfold Group1.increment Architecture.increment
  split
  · exact r.toBits_add 1
  · rfl

/-- A group 1 word does to L.AC what its bits say. -/
theorem toBits_apply : (g.apply r).toBits = Architecture.operate1 word r.toBits := by
  unfold Group1.apply Architecture.operate1
  rw [toBits_increment h, toBits_rotation h, toBits_complement h, toBits_clear h]

end Group1

/-! ## Group 2 -/

section Group2

variable {word : Word} {g : Group2} (h : Operate.ofWord word = .group2 g) (r : LinkAc)
include h

/-- The bits of a group 2 word. -/
theorem bits_of_group2 :
    word.getLsbD 8 = true ∧ word.getLsbD 0 = false ∧ g =
      { cla := word.getLsbD 7
        sma := word.getLsbD 6
        sza := word.getLsbD 5
        snl := word.getLsbD 4
        reverse := word.getLsbD 3
        osr := word.getLsbD 2
        hlt := word.getLsbD 1 } := by
  unfold Operate.ofWord at h
  split at h
  · cases h
  · rename_i h8
    split at h
    · rename_i h0
      exact ⟨by simpa using h8, h0, (Operate.group2.inj h).symm⟩
    · cases h

theorem skips_eq : g.skips r = Architecture.skips word r.toBits := by
  obtain ⟨-, -, rfl⟩ := bits_of_group2 h
  have hminus : r.ac.msb = r.toBits.getLsbD 11 := by
    rw [r.getLsbD_toBits (by omega)]
    rfl
  unfold Group2.skips Architecture.skips
  rw [hminus, r.setWidth_toBits, r.getLsbD_toBits_link]
  cases word.getLsbD 3
  · simp
  · simp [Bool.and_assoc]

/-- A group 2 word leaves the link alone. -/
theorem cons_acAfter (switches : Word) :
    BitVec.cons r.link (g.acAfter switches r.ac) =
      Architecture.operate2 word switches r.toBits := by
  obtain ⟨-, -, rfl⟩ := bits_of_group2 h
  unfold Group2.acAfter Architecture.operate2
  cases word.getLsbD 7 <;> cases word.getLsbD 2 <;>
    simp only [LinkAc.toBits_eq, clear_ac, cons_or, Bool.false_eq_true, if_false, if_true]

end Group2

/-! ## Group 3 -/

/-- The bits of a group 3 word. -/
theorem bits_of_undefined {word w : Word} (h : Operate.ofWord word = .undefined w) :
    word.getLsbD 8 = true ∧ word.getLsbD 0 = true ∧ w = word := by
  unfold Operate.ofWord at h
  split at h
  · cases h
  · rename_i h8
    split at h
    · cases h
    · rename_i h0
      exact ⟨by simpa using h8, by simpa using h0, (Operate.undefined.inj h).symm⟩

end Pdp8
