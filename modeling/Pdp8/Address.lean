import Pdp8.Octal

/-!
# Pdp8.Address — places in core

An address is a field and a location within it.  Addresses are ordered field first, and in a core
of several fields they are numbered in that order: `flatIndex` is injective, and stays below
`fieldSize` times any number of fields that includes the address's own.
-/

namespace Pdp8

/-- Words in a memory field. -/
def fieldSize : Nat := 4096

/-- A location, and the field it lies in. -/
structure Address where
  field : FieldNumber
  location : Word
  deriving DecidableEq, Repr, Inhabited

namespace Address

/-- Location 0 of field 0. -/
def zero : Address := ⟨0, 0⟩

/-- The number of an address in a core whose fields follow one another. -/
def flatIndex (a : Address) : Nat := a.field.toNat * fieldSize + a.location.toNat

/-- Locations 0010 to 0017 of a field are incremented before they serve as pointers. -/
def isAutoIndex (a : Address) : Bool := 0o10 ≤ a.location.toNat && a.location.toNat ≤ 0o17

/-- The order of addresses: by field, then by location. -/
def order (a b : Address) : Ordering :=
  (compare a.field.toNat b.field.toNat).then (compare a.location.toNat b.location.toNat)

/-- An address as the field digit, a point and four digits. -/
def text (a : Address) : String := Octal.text a.field.toNat ++ "." ++ Octal.word a.location

theorem flatIndex_inj {a b : Address} : a.flatIndex = b.flatIndex ↔ a = b := by
  constructor
  · intro h
    have ha := a.location.isLt
    have hb := b.location.isLt
    simp only [flatIndex, fieldSize] at h
    cases a with | mk fa la => cases b with | mk fb lb =>
    simp only at ha hb h
    congr 1
    · exact BitVec.eq_of_toNat_eq (by omega)
    · exact BitVec.eq_of_toNat_eq (by omega)
  · rintro rfl; rfl

theorem flatIndex_lt {a : Address} {n : Nat} (h : a.field.toNat < n) :
    a.flatIndex < n * fieldSize := by
  have hl := a.location.isLt
  have hm : (a.field.toNat + 1) * fieldSize ≤ n * fieldSize := Nat.mul_le_mul_right _ h
  simp only [flatIndex, fieldSize] at *
  omega

end Address

end Pdp8
