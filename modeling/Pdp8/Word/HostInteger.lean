import Pdp8.Word

/-!
# Pdp8.Word.HostInteger — words beside ordinary machine integers

A host integer type is a width and a sign.  A word goes to such a type when its value fits, and
is compared with a host integer by value: a number outside the word's range equals no word and is
greater than every word when it is unsigned.
-/

namespace Pdp8

/-- An integer type of the host: two's complement when signed. -/
structure HostInteger where
  bits : Nat
  signed : Bool
  deriving DecidableEq, Repr

namespace HostInteger

variable {w : Nat}

/-- The least value of the type. -/
def min (k : HostInteger) : Int := if k.signed then -Word.modulus (k.bits - 1) else 0

/-- The greatest value of the type. -/
def max (k : HostInteger) : Int :=
  if k.signed then Word.modulus (k.bits - 1) - 1 else Word.modulus k.bits - 1

/-- `v` is a value of the type. -/
def Holds (k : HostInteger) (v : Int) : Prop := k.min ≤ v ∧ v ≤ k.max

/-- The value of a word as a host integer, if the type reaches that far. -/
def ofWord (k : HostInteger) (a : BitVec w) : Except RangeError Int :=
  if (a.toNat : Int) ≤ k.max then .ok a.toNat else .error .tooLarge

end HostInteger

namespace Word

variable {w : Nat}

/-- Whether a word and a host integer have the same value. -/
def equalsInt (a : BitVec w) (v : Int) : Bool :=
  match ofInt w v with
  | .ok b => a == b
  | .error _ => false

/-- The order of a word and an unsigned host integer. -/
def compareNat (a : BitVec w) (n : Nat) : Ordering :=
  match ofInt w n with
  | .ok b => compare a.toNat b.toNat
  | .error _ => .lt

theorem equalsInt_iff {a : BitVec w} {v : Int} : equalsInt a v = true ↔ (a.toNat : Int) = v := by
  unfold equalsInt
  split
  · rename_i b h
    rw [ofInt_eq_ok_iff] at h
    rw [beq_iff_eq]
    constructor
    · rintro rfl; exact h
    · intro h'
      apply BitVec.eq_of_toNat_eq
      omega
  · rename_i e h
    constructor
    · intro h'; cases h'
    · intro h'
      rw [ofInt_eq_ok_iff.2 h'] at h
      cases h

end Word

end Pdp8
