import Pdp8.Proofs.HeldWords

/-!
# Pdp8.Proofs.WordIntegers — words are the integers of their width

A number that goes into a word, comes out of one or is compared with one is taken at its value, and
refused exactly when it has none there.  A host type that is wide enough is not checked, and the
others are, by the register first and by the mask after it.
-/

namespace Pdp8

open HostInteger

/-! ## Numbers and words -/

namespace Word

variable {w : Nat} {v : Int}

theorem ofInt_of_neg (h : v < 0) : ofInt w v = .error .tooSmall := if_pos h

theorem ofInt_of_word (h0 : 0 ≤ v) (h : v < modulus w) :
    ofInt w v = .ok (BitVec.ofNat w v.toNat) :=
  (if_neg (Int.not_lt.mpr h0)).trans (if_pos h)

theorem ofInt_of_large (h : modulus w ≤ v) : ofInt w v = .error .tooLarge :=
  have h0 : ¬v < 0 := by omega
  (if_neg h0).trans (if_neg (Int.not_lt.mpr h))

theorem ofInt_eq_tooSmall_iff : ofInt w v = .error .tooSmall ↔ v < 0 := by
  unfold ofInt
  split_ifs with hneg hin
  · exact iff_of_true rfl hneg
  · exact iff_of_false nofun hneg
  · exact iff_of_false nofun hneg

theorem ofInt_eq_tooLarge_iff : ofInt w v = .error .tooLarge ↔ modulus w ≤ v := by
  unfold ofInt
  split_ifs with hneg hin
  · exact iff_of_false nofun (by omega)
  · exact iff_of_false nofun (Int.not_le.mpr hin)
  · exact iff_of_true rfl (Int.not_lt.mp hin)

/-- An unsigned number that is no word is greater than every word. -/
theorem compareNat_eq (x : BitVec w) (n : Nat) : compareNat x n = compare x.toNat n := by
  have hx := toNat_lt_modulus x
  unfold compareNat
  cases h : ofInt w n with
  | ok y =>
    have hy : (y.toNat : Int) = n := ofInt_eq_ok_iff.mp h
    exact congrArg (compare x.toNat) (Int.ofNat_inj.mp hy)
  | error e =>
    have hlarge : modulus w ≤ n := by
      by_cases hn : (n : Int) < modulus w
      · rw [ofInt_of_word (by omega) hn] at h
        cases h
      · omega
    exact (Nat.compare_eq_lt.mpr (by omega)).symm

theorem toNat_addCarry (x y : BitVec w) :
    (addCarry x y).1.toNat + (addCarry x y).2.toNat * modulus w = x.toNat + y.toNat := by
  have hx := toNat_lt_modulus x
  have hy := toNat_lt_modulus y
  have hsum : (x + y).toNat = (x.toNat + y.toNat) % modulus w := BitVec.toNat_add x y
  unfold addCarry
  dsimp only
  rw [hsum]
  by_cases hcarry : modulus w ≤ x.toNat + y.toNat
  · rw [decide_eq_true hcarry, Nat.mod_eq_sub_mod hcarry, Nat.mod_eq_of_lt (by omega)]
    simp only [Bool.toNat_true]
    omega
  · rw [decide_eq_false hcarry, Nat.mod_eq_of_lt (by omega)]
    simp only [Bool.toNat_false]
    omega

end Word

namespace HostInteger

variable {i : HostInteger} {v : Int}

theorem max_eq (i : HostInteger) : i.max = Word.modulus i.valueBits - 1 := by
  unfold HostInteger.max valueBits
  split_ifs <;> rfl

theorem min_nonpos (i : HostInteger) : i.min ≤ 0 := by
  unfold HostInteger.min
  split_ifs <;> omega

theorem holds_iff_of_unsigned {n : Nat} :
    (⟨n, false⟩ : HostInteger).Holds v ↔ 0 ≤ v ∧ v < Word.modulus n := by
  have hmax : (⟨n, false⟩ : HostInteger).max = Word.modulus n - 1 := max_eq _
  have hmin : (⟨n, false⟩ : HostInteger).min = 0 := rfl
  unfold HostInteger.Holds
  rw [hmax, hmin, Int.le_sub_one_iff]

theorem fit?_of_holds (h : i.Holds v) : i.fit? v = some v := if_pos h

theorem fit?_of_not_holds (h : ¬i.Holds v) : i.fit? v = none := if_neg h

theorem toNat_ofInt {n : Nat} (h0 : 0 ≤ v) (h : v < Word.modulus n) :
    (BitVec.ofInt n v).toNat = v.toNat := by
  rw [BitVec.toNat_ofInt]
  exact congrArg Int.toNat (Int.emod_eq_of_lt h0 h)

theorem register?_of_holds {n : Nat} (h0 : 0 ≤ v) (h : v < Word.modulus n) :
    register? n v = some (BitVec.ofInt n v) := by
  unfold register?
  rw [fit?_of_holds (holds_iff_of_unsigned.mpr ⟨h0, h⟩)]
  rfl

theorem register?_of_not_holds {n : Nat} (h : ¬(0 ≤ v ∧ v < Word.modulus n)) :
    register? n v = none := by
  unfold register?
  rw [fit?_of_not_holds (mt holds_iff_of_unsigned.mp h)]
  rfl

end HostInteger

namespace Held

variable {w n : Nat}

/-- A number that is a word is taken as it is. -/
theorem mk_ofInt (h : w < n) {v : Int} (h0 : 0 ≤ v) (hv : v < Word.modulus w) :
    (⟨BitVec.ofInt n v⟩ : Held w n) = hold n (BitVec.ofNat w v.toNat) := by
  have hle := Word.modulus_le (Nat.le_of_lt h)
  have hword : v.toNat < Word.modulus w := by omega
  apply eq_of_toNat_eq
  rw [toNat_hold h, toNat_ofInt h0 (by omega), BitVec.toNat_ofNat]
  exact (Nat.mod_eq_of_lt hword).symm

theorem ofInt_of_register (h : w < n) {v : Int} (h0 : 0 ≤ v) (hv : v < Word.modulus n) :
    (ofInt v : Except RangeError (Held w n)) =
      if v < Word.modulus w then .ok ⟨BitVec.ofInt n v⟩ else .error .tooLarge := by
  have hmask : valueMask w n < BitVec.ofInt n v ↔ ¬v < Word.modulus w := by
    rw [valueMask_lt_iff h, toNat_ofInt h0 hv]
    omega
  unfold ofInt
  rw [register?_of_holds h0 hv]
  dsimp only
  split_ifs with hbits hin hin
  · exact absurd hin (hmask.mp hbits)
  · rfl
  · rfl
  · exact absurd (hmask.mpr hin) hbits

theorem ofInt_of_no_register {v : Int} (hv : ¬(0 ≤ v ∧ v < Word.modulus n)) :
    (ofInt v : Except RangeError (Held w n)) =
      .error (if v < 0 then .tooSmall else .tooLarge) := by
  unfold ofInt
  rw [register?_of_not_holds hv]

/-- A number that is no word is refused by the register, or by the mask after it. -/
theorem ofInt_eq (h : w < n) (v : Int) :
    (ofInt v : Except RangeError (Held w n)) = (Word.ofInt w v).map (hold n) := by
  have hle := Word.modulus_le (Nat.le_of_lt h)
  by_cases hneg : v < 0
  · rw [ofInt_of_no_register (by omega), Word.ofInt_of_neg hneg, if_pos hneg]
    rfl
  · have h0 : 0 ≤ v := Int.not_lt.mp hneg
    by_cases hin : v < Word.modulus w
    · rw [ofInt_of_register h h0 (by omega), if_pos hin, Word.ofInt_of_word h0 hin,
        mk_ofInt h h0 hin]
      rfl
    · -- the register may still take the number, and then it is the mask that refuses it
      rw [Word.ofInt_of_large (Int.not_lt.mp hin)]
      by_cases hregister : v < Word.modulus n
      · rw [ofInt_of_register h h0 hregister, if_neg hin]
        rfl
      · rw [ofInt_of_no_register (by omega), if_neg hneg]
        rfl

/-- A type that is not checked has no number that would be refused. -/
theorem ofHost_eq (h : w < n) {i : HostInteger} {v : Int} (hv : i.Holds v) :
    (ofHost i v : Except RangeError (Held w n)) = (Word.ofInt w v).map (hold n) := by
  unfold ofHost
  split_ifs with hall
  · obtain ⟨bits, signed⟩ := i
    obtain ⟨rfl, hbits⟩ := hall
    obtain ⟨h0, hlt⟩ := holds_iff_of_unsigned.mp hv
    have hle : Word.modulus bits ≤ Word.modulus w := Word.modulus_le hbits
    rw [Word.ofInt_of_word h0 (by omega), mk_ofInt h h0 (by omega)]
    rfl
  · exact ofInt_eq h v

theorem ofHost_eq_error_iff (h : w < n) {i : HostInteger} {v : Int} (hv : i.Holds v)
    {e : RangeError} :
    (ofHost i v : Except RangeError (Held w n)) = .error e ↔ Word.ofInt w v = .error e := by
  rw [ofHost_eq h hv]
  cases Word.ofInt w v with
  | error e' =>
    constructor
    · intro he
      cases he
      rfl
    · intro he
      cases he
      rfl
  | ok x => exact iff_of_false nofun nofun

/-- A type that has a bit for each bit of a word has its value. -/
theorem cast_hold (h : w < n) {i : HostInteger} (hall : w ≤ i.valueBits) (x : BitVec w) :
    i.cast (hold n x).bits = x.toNat := by
  have hx := x.isLt
  unfold valueBits at hall
  have hle : w ≤ i.bits := by
    split_ifs at hall <;> omega
  have hnat : ((hold n x).bits.setWidth i.bits).toNat = x.toNat := by
    rw [BitVec.toNat_setWidth, toNat_hold h]
    exact Nat.mod_eq_of_lt (Nat.lt_of_lt_of_le hx (Word.modulus_le hle))
  unfold HostInteger.cast
  split_ifs with hsigned
  · -- the bit of the sign stays clear
    rw [if_pos hsigned] at hall
    have htop : 2 * x.toNat < 2 ^ i.bits := by
      have hword : 2 ^ w ≤ 2 ^ (i.bits - 1) := Nat.pow_le_pow_right (by decide) hall
      rcases Nat.eq_zero_or_pos i.bits with hzero | hpos
      · rw [hzero] at hword ⊢
        omega
      · have htwice := Nat.two_pow_pred_mul_two hpos
        omega
    rw [BitVec.toInt_eq_toNat_of_lt (by rw [hnat]; exact htop), hnat]
  · rw [hnat]

/-- A type that is not checked has the value of every word. -/
theorem toHost_hold (h : w < n) (i : HostInteger) (x : BitVec w) :
    (hold n x).toHost i = i.ofWord x := by
  have hx := Word.toNat_lt_modulus x
  have hmax := i.max_eq
  have hmin := i.min_nonpos
  unfold toHost ofWord
  rw [toNat_hold h]
  split_ifs with hall hfit hfit
  · rw [cast_hold h hall]
  · have hle := Word.modulus_le hall
    omega
  · rw [fit?_of_holds ⟨by omega, hfit⟩]
  · rw [fit?_of_not_holds fun hholds => hfit hholds.2]

theorem equalsHost_hold (h : w < n) {i : HostInteger} {v : Int} (hv : i.Holds v) (x : BitVec w) :
    (hold n x).equalsHost i v = Word.equalsInt x v := by
  unfold equalsHost Word.equalsInt
  rw [ofHost_eq h hv]
  cases Word.ofInt w v with
  | error e => rfl
  | ok y =>
    rw [Bool.eq_iff_iff]
    dsimp only [Except.map]
    rw [beq_iff_eq, beq_iff_eq]
    exact ⟨hold_inj h, fun hxy => by rw [hxy]⟩

theorem compare_hold (h : w < n) (x y : BitVec w) :
    (hold n x).compare (hold n y) = Ord.compare x.toNat y.toNat := by
  unfold Held.compare
  rw [toNat_hold h, toNat_hold h]

theorem compareNat_hold (h : w < n) (x : BitVec w) (v : Nat) :
    (hold n x).compareNat v = Word.compareNat x v := by
  unfold Held.compareNat Word.compareNat
  rw [ofInt_eq h]
  cases Word.ofInt w v with
  | error e => rfl
  | ok y => exact compare_hold h x y

/-! ## The integers of a width -/

/-- What the operators on registers of `n` bits do, where none of the host's arithmetic overflows:
on the words of `w` bits that are held, the same as on words, and out of what a register can have
they make words. -/
structure KeepsWords (w n : Nat) : Prop where
  /-- The registers within the width are those of the words. -/
  words : (∀ x : BitVec w, (hold n x).Within ∧ (hold n x).value = x.toNat) ∧
    ∀ a : Held w n, a.Within → ∃ x : BitVec w, a = hold n x
  limits : (zero : Held w n) = hold n 0 ∧ (one : Held w n) = hold n 1 ∧
    (greatest : Held w n) = hold n (BitVec.allOnes w)
  constants : ∀ m : BitVec n, (constant? m : Option (Held w n)) =
    if m.toNat < Word.modulus w then some (hold n (m.setWidth w)) else none
  truncating : ∀ m : BitVec n, (truncating m : Held w n) = hold n (m.setWidth w)
  pairs : ∀ x y : BitVec w, (hold n x).and (hold n y) = hold n (x &&& y) ∧
    (hold n x).or (hold n y) = hold n (x ||| y) ∧ (hold n x).xor (hold n y) = hold n (x ^^^ y)
  masks : ∀ (x : BitVec w) (m : BitVec n),
    (hold n x).andMask m = hold n (x &&& m.setWidth w) ∧
      (hold n x).orMask m = hold n (x ||| m.setWidth w) ∧
        (hold n x).xorMask m = hold n (x ^^^ m.setWidth w)
  not : ∀ x : BitVec w, (hold n x).not = hold n (~~~x)
  bits : ∀ (x : BitVec w) (k : Nat), (hold n x).bit? k = some (x.getLsbD k)
  rotation : ∀ (x : BitVec w) (k : Nat),
    (hold n x).rotateLeft? k = some (hold n (x.rotateLeft k))
  successor : ∀ x : BitVec w, (hold n x).successor? = some (hold n (Word.successor x))
  /-- The carry is what the word has no room for. -/
  sum : ∀ x y : BitVec w, ∃ s carry, Word.addCarry x y = (s, carry) ∧
    (hold n x).overflowingAdd? (hold n y) = some (hold n s, carry) ∧
      s.toNat + carry.toNat * Word.modulus w = x.toNat + y.toNat

/-- How registers of `n` bits that hold words of `w` compare with the integers of the host. -/
structure EmbedsIntegers (w n : Nat) : Prop where
  /-- A number from zero up to the greatest of the width becomes the word of that value. -/
  taken : ∀ i ∈ HostInteger.all, ∀ v, i.Holds v → 0 ≤ v → v < Word.modulus w →
    ∃ a : Held w n, ofHost i v = .ok a ∧ a.Within ∧ (a.value : Int) = v
  tooSmall : ∀ i ∈ HostInteger.all, ∀ v, i.Holds v →
    ((ofHost i v : Except RangeError (Held w n)) = .error .tooSmall ↔ v < 0)
  tooLarge : ∀ i ∈ HostInteger.all, ∀ v, i.Holds v →
    ((ofHost i v : Except RangeError (Held w n)) = .error .tooLarge ↔ Word.modulus w ≤ v)
  /-- A word becomes the integer of its value, unless the type has no such integer. -/
  given : ∀ i ∈ HostInteger.all, ∀ a : Held w n, a.Within →
    a.toHost i = if i.max < a.value then .error .tooLarge else .ok a.value
  /-- That is so for words of 12 bits and types of 8 only. -/
  refused : ∀ i ∈ HostInteger.all, ∀ a : Held w n, a.Within → i.max < a.value →
    w = 12 ∧ i.bits = 8
  equal : ∀ i ∈ HostInteger.all, ∀ a : Held w n, a.Within → ∀ v, i.Holds v →
    (a.equalsHost i v = true ↔ (a.value : Int) = v)
  order : ∀ a : Held w n, a.Within → ∀ v : Nat, a.compareNat v = Ord.compare a.value v
  /-- The definitions that do without registers come to the same. -/
  same : ∀ i ∈ HostInteger.all, ∀ (x : BitVec w) (v : Int), i.Holds v →
    ofHost i v = (Word.ofInt w v).map (hold n) ∧ (hold n x).toHost i = i.ofWord x ∧
      (hold n x).equalsHost i v = Word.equalsInt x v ∧
        (hold n x).compareNat v.toNat = Word.compareNat x v.toNat

/-- What becomes of a word when it is held as one of another width. -/
structure ChangesWidth : Prop where
  widen : (∀ f : FieldNumber, (hold 8 f).widen = hold 16 (f.setWidth 12)) ∧
    ∀ o : PageOffset, (hold 8 o).widen = hold 16 (o.setWidth 12)
  top : ∀ x : Word, (hold 16 x).topThreeBits = hold 8 x.opcode ∧ x.opcode.toNat = x.toNat / 512
  middle : ∀ x : Word, (hold 16 x).middleFieldBits = hold 8 x.fieldBits ∧
    x.fieldBits.toNat = x.toNat / 8 % 8
  shifted : ∀ f : FieldNumber, (hold 8 f).shiftedIntoBits5To3 = hold 16 f.toBits5To3 ∧
    f.toBits5To3.toNat = 8 * f.toNat

theorem keepsWords (hw : 0 < w) (h : w < n) : KeepsWords w n where
  words := ⟨fun x => ⟨within_hold h x, toNat_hold h x⟩, fun _ ha => exists_hold h ha⟩
  limits := ⟨zero_eq h, one_eq hw h, greatest_eq h⟩
  constants := constant?_eq h
  truncating := truncating_eq h
  pairs x y := ⟨and_hold x y, or_hold x y, xor_hold x y⟩
  masks x m := ⟨andMask_hold h x m, orMask_hold h x m, xorMask_hold h x m⟩
  not := not_hold h
  bits := bit?_hold h
  rotation := rotateLeft?_hold hw h
  successor := successor?_hold hw h
  sum x y := ⟨_, _, rfl, overflowingAdd?_hold h x y, Word.toNat_addCarry x y⟩

/-- Only a type of 8 bits is short of a word of 12, and none is of one of 7. -/
theorem bits_of_short {i : HostInteger} (hi : i ∈ HostInteger.all) (hshort : i.valueBits < w)
    (hw : w ≤ 7 ∨ w = 12) : w = 12 ∧ i.bits = 8 := by
  have hbits : ∀ i ∈ HostInteger.all, 7 ≤ i.valueBits ∧ (i.bits = 8 ∨ 15 ≤ i.valueBits) := by
    decide
  obtain ⟨hseven, height⟩ := hbits i hi
  omega

theorem embedsIntegers (h : w < n) (hw : w ≤ 7 ∨ w = 12) : EmbedsIntegers w n where
  taken i _ v hv h0 hlt := by
    have hword := Word.ofInt_of_word h0 hlt
    refine ⟨hold n (BitVec.ofNat w v.toNat), ?_, within_hold h _, ?_⟩
    · rw [ofHost_eq h hv, hword]
      rfl
    · unfold value
      rw [toNat_hold h]
      exact Word.ofInt_eq_ok_iff.mp hword
  tooSmall i _ v hv := by
    rw [ofHost_eq_error_iff h hv, Word.ofInt_eq_tooSmall_iff]
  tooLarge i _ v hv := by
    rw [ofHost_eq_error_iff h hv, Word.ofInt_eq_tooLarge_iff]
  given i _ a ha := by
    obtain ⟨x, rfl⟩ := exists_hold h ha
    rw [toHost_hold h]
    unfold ofWord value
    rw [toNat_hold h]
    split_ifs with hfit hlarge hlarge
    · exact absurd hlarge (Int.not_lt.mpr hfit)
    · rfl
    · rfl
    · exact absurd (Int.not_lt.mp hlarge) hfit
  refused i hi a ha hmax := by
    have hvalue : a.value < Word.modulus w := ha
    have hshort : i.valueBits < w := by
      refine Nat.lt_of_not_le fun hall => ?_
      have hle := Word.modulus_le hall
      rw [max_eq] at hmax
      omega
    exact bits_of_short hi hshort hw
  equal i _ a ha v hv := by
    obtain ⟨x, rfl⟩ := exists_hold h ha
    rw [equalsHost_hold h hv, Word.equalsInt_iff]
    unfold value
    rw [toNat_hold h]
  order a ha v := by
    obtain ⟨x, rfl⟩ := exists_hold h ha
    rw [compareNat_hold h, Word.compareNat_eq]
    unfold value
    rw [toNat_hold h]
  same i _ x v hv := ⟨ofHost_eq h hv, toHost_hold h i x, equalsHost_hold h hv x,
    compareNat_hold h x v.toNat⟩

theorem changesWidth : ChangesWidth where
  widen := ⟨widen_hold (by decide), widen_hold (by decide)⟩
  top x := ⟨topThreeBits_hold x, x.toNat_opcode⟩
  middle x := ⟨middleFieldBits_hold x, x.toNat_fieldBits⟩
  shifted f := ⟨shiftedIntoBits5To3_hold f, f.toNat_toBits5To3⟩

/-- The three types of words are the integers of their widths. -/
theorem words_embed_integers :
    (KeepsWords 3 8 ∧ EmbedsIntegers 3 8) ∧ (KeepsWords 7 8 ∧ EmbedsIntegers 7 8) ∧
      (KeepsWords 12 16 ∧ EmbedsIntegers 12 16) ∧ ChangesWidth := by
  refine ⟨⟨?_, ?_⟩, ⟨?_, ?_⟩, ⟨?_, ?_⟩, changesWidth⟩
  · exact keepsWords (by decide) (by decide)
  · exact embedsIntegers (by decide) (by decide)
  · exact keepsWords (by decide) (by decide)
  · exact embedsIntegers (by decide) (by decide)
  · exact keepsWords (by decide) (by decide)
  · exact embedsIntegers (by decide) (by decide)

end Held

end Pdp8
