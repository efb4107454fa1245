import Mathlib.Logic.Function.Basic
import Pdp8.Core
import Pdp8.Image

/-!
# Pdp8.Proofs.Memory — core as a function from addresses to words

Seen through `peek`, a write into a fitted field updates the function at one address, and a write
into any other field does nothing.  A block is written a word at a time: its location wraps within
the field, and it never leaves the field.
-/

namespace Pdp8

namespace Core

variable {c : Core} {a : Address}

theorem peek_of_read (c : Core) (a : Address) : (c.read a).peek = c.peek :=
  funext (peek_read c a)

theorem peek_write_of_fitted (h : c.isFitted a.field = true) (w : Word) :
    (c.write a w).peek = Function.update c.peek a w := by
  funext b
  rw [peek_write]
  by_cases hb : b = a
  · subst hb
    rw [if_pos ⟨rfl, h⟩, Function.update_self]
  · rw [if_neg (fun h' => hb h'.1), Function.update_of_ne hb]

theorem peek_write_of_not_fitted (h : c.isFitted a.field = false) (w : Word) :
    (c.write a w).peek = c.peek := by
  funext b
  rw [peek_write, h, if_neg (fun h' => Bool.false_ne_true h'.2)]

end Core

/-- Memory with words written one after another from an address on, wrapping within the field. -/
def storeFrom (memory : Address → Word) (a : Address) : List Word → Address → Word
  | [] => memory
  | w :: ws => storeFrom (Function.update memory a w) ⟨a.field, a.location + 1⟩ ws

/-- Memory with blocks written in order. -/
def storeBlocks (memory : Address → Word) (blocks : List Block) : Address → Word :=
  blocks.foldl (fun memory b => storeFrom memory b.start b.words) memory

/-- The address of a word of a block. -/
def Address.plus (a : Address) (i : Nat) : Address := ⟨a.field, a.location + BitVec.ofNat 12 i⟩

@[simp] theorem Address.plus_zero (a : Address) : a.plus 0 = a := by
  unfold plus
  rw [BitVec.add_zero]

theorem Address.plus_succ (a : Address) (i : Nat) :
    a.plus (i + 1) = Address.plus ⟨a.field, a.location + 1⟩ i := by
  unfold plus
  rw [BitVec.ofNat_add, BitVec.add_comm (BitVec.ofNat 12 i), ← BitVec.add_assoc]
  rfl

/-- Only the addresses of the block are written to. -/
theorem storeFrom_of_ne {words : List Word} {memory : Address → Word} {a b : Address}
    (h : ∀ i < words.length, b ≠ a.plus i) : storeFrom memory a words b = memory b := by
  induction words generalizing memory a with
  | nil => rfl
  | cons w ws ih =>
    have hb : b ≠ a := by
      have h0 := h 0 (Nat.succ_pos _)
      rwa [Address.plus_zero] at h0
    have hrest : ∀ i < ws.length, b ≠ Address.plus ⟨a.field, a.location + 1⟩ i := by
      intro i hi
      rw [← Address.plus_succ]
      exact h (i + 1) (Nat.succ_lt_succ hi)
    exact (ih hrest).trans (Function.update_of_ne hb _ _)

/-- A block that fits into a field is found there as it was written. -/
theorem storeFrom_plus {words : List Word} {memory : Address → Word} {a : Address} {i : Nat}
    (hlen : words.length ≤ fieldSize) (hi : i < words.length) :
    storeFrom memory a words (a.plus i) = words[i] := by
  induction words generalizing memory a i with
  | nil => cases hi
  | cons w ws ih =>
    rw [List.length_cons] at hlen
    cases i with
    | succ i =>
      rw [Address.plus_succ]
      exact ih (by omega) (Nat.lt_of_succ_lt_succ hi)
    | zero =>
      have hfar : ∀ j < ws.length, a ≠ Address.plus ⟨a.field, a.location + 1⟩ j := by
        intro j hj he
        rw [← Address.plus_succ] at he
        have hlocation := congrArg (fun b : Address => b.location.toNat) he
        have hlt := a.location.isLt
        unfold Address.plus at hlocation
        simp only [BitVec.toNat_add, BitVec.toNat_ofNat] at hlocation
        unfold fieldSize at hlen
        omega
      rw [Address.plus_zero]
      exact (storeFrom_of_ne hfar).trans (Function.update_self _ _ _)

end Pdp8
