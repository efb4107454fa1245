import Pdp8.Proofs.HeldWords

/-!
# Pdp8.Proofs.CyclicTurns — words in registers, and L.AC, turn as a cycle

The shifts of a rotation lose bits at the end of a register that is only a little wider than the
word, and L.AC is turned by a loop over any number of places.  Both come to rotations of the word
alone: bits move by so many places modulo the width, rotations add up, and whole turns do nothing.
-/

namespace Pdp8

namespace Held

/-- How the words of `w` bits turn in registers of `n` bits. -/
structure TurnsCyclically (w n : Nat) : Prop where
  /-- No rotation fails, and each bit of a word comes from `k` places below. -/
  bits : ∀ a : Held w n, a.Within → ∀ k : Nat, ∃ b, a.rotateLeft? k = some b ∧ b.Within ∧
    ∀ i < w, ∃ v, a.bit? (Word.place w (i - k)) = some v ∧ b.bit? i = some v
  /-- Rotations add up, modulo the width. -/
  sum : ∀ a : Held w n, a.Within → ∀ p q : Nat,
    (a.rotateLeft? p).bind (fun b => b.rotateLeft? q) = a.rotateLeft? ((p + q) % w)
  /-- Whole turns do nothing. -/
  turns : ∀ a : Held w n, a.Within → ∀ c : Nat, a.rotateLeft? (w * c) = some a
  /-- The rotation that does without registers comes to the same. -/
  same : ∀ (x : BitVec w) (k : Nat), (hold n x).rotateLeft? k = some (hold n (x.rotateLeft k))

theorem turnsCyclically {w n : Nat} (hw : 0 < w) (h : w < n) : TurnsCyclically w n where
  bits a ha k := by
    obtain ⟨x, rfl⟩ := exists_hold h ha
    refine ⟨hold n (x.rotateLeft k), rotateLeft?_hold hw h x k, within_hold h _, fun i hi => ?_⟩
    refine ⟨_, bit?_hold h x _, ?_⟩
    rw [bit?_hold h, Word.getLsbD_rotateLeft_place x k hi]
  sum a ha p q := by
    obtain ⟨x, rfl⟩ := exists_hold h ha
    rw [rotateLeft?_hold hw h, Option.bind_some, rotateLeft?_hold hw h, rotateLeft?_hold hw h,
      Word.rotateLeft_rotateLeft]
  turns a ha c := by
    obtain ⟨x, rfl⟩ := exists_hold h ha
    rw [rotateLeft?_hold hw h, Word.rotateLeft_of_mod_eq_zero x (Nat.mul_mod_right w c)]
  same := rotateLeft?_hold hw h

end Held

namespace LinkAc

/-- How L.AC turns to either side. -/
structure TurnsCyclically : Prop where
  /-- Each bit of L.AC comes from `k` places below. -/
  left : ∀ (r : LinkAc) (k : Nat), ∀ i < 13,
    (r.rotateLeft k).toBits.getLsbD i = r.toBits.getLsbD (Word.place 13 (i - k))
  /-- Each bit of L.AC comes from `k` places above. -/
  right : ∀ (r : LinkAc) (k : Nat), ∀ i < 13,
    (r.rotateRight k).toBits.getLsbD i = r.toBits.getLsbD (Word.place 13 (i + k))
  /-- The two sides undo each other. -/
  back : ∀ (left : Bool) (r : LinkAc) (k : Nat), (r.rotate left k).rotate (!left) k = r
  /-- A rotation is one to the other side by the places that are missing to a turn. -/
  opposite : ∀ (left : Bool) (r : LinkAc) (k : Nat),
    r.rotate left k = r.rotate (!left) (13 - k % 13)
  /-- Rotations add up, modulo the width. -/
  sum : ∀ (left : Bool) (r : LinkAc) (p q : Nat),
    (r.rotate left p).rotate left q = r.rotate left ((p + q) % 13)
  /-- Whole turns do nothing. -/
  turns : ∀ (left : Bool) (r : LinkAc) (c : Nat), r.rotate left (13 * c) = r

theorem turnsCyclically : TurnsCyclically where
  left r k i hi := by
    rw [toBits_rotateLeft, Word.getLsbD_rotateLeft_place _ k hi]
  right r k i hi := by
    rw [toBits_rotateRight, Word.getLsbD_rotateRight_place _ k hi]
  back left r k := by
    apply toBits_inj
    rw [toBits_rotate_rotate, ← Nat.add_mul, stride_add_stride]
    exact Word.rotateLeft_of_mod_eq_zero _ (Nat.mul_mod_right 13 k)
  opposite left r k := by
    apply toBits_inj
    rw [toBits_rotate, toBits_rotate]
    apply Word.rotateLeft_congr
    cases left with
    | true =>
      rw [Bool.not_true, stride_true, stride_false]
      omega
    | false =>
      rw [Bool.not_false, stride_true, stride_false]
      omega
  sum left r p q := by
    apply toBits_inj
    rw [toBits_rotate_rotate, toBits_rotate, ← Nat.mul_add]
    exact Word.rotateLeft_congr _ (Nat.mul_mod_mod _ _ _).symm
  turns left r c := by
    apply toBits_inj
    rw [toBits_rotate, Nat.mul_left_comm]
    exact Word.rotateLeft_of_mod_eq_zero _ (Nat.mul_mod_right 13 _)

end LinkAc

/-- The three types of words turn as cycles of their widths, and L.AC as one of 13 places. -/
theorem rotations_cyclic :
    (Held.TurnsCyclically 3 8 ∧ Held.TurnsCyclically 7 8 ∧ Held.TurnsCyclically 12 16) ∧
      LinkAc.TurnsCyclically := by
  refine ⟨⟨?_, ?_, ?_⟩, LinkAc.turnsCyclically⟩
  · exact Held.turnsCyclically (by decide) (by decide)
  · exact Held.turnsCyclically (by decide) (by decide)
  · exact Held.turnsCyclically (by decide) (by decide)

end Pdp8
