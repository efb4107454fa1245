import Pdp8.Event

/-!
# Pdp8.Core — core memory

Up to eight fields of 4096 words.  A reference to a field that is not fitted reads as zero, and a
write to it is lost; either is still a memory cycle, and `last` remembers the latest one for the
panel's lights.  `peek` is the view of a core: what each operation does is said through it.
-/

namespace Pdp8

/-- A memory cycle: the address and the word that was read there or offered to it. -/
structure Reference where
  address : Address
  word : Word
  deriving DecidableEq, Repr, Inhabited

/-- The greatest number of fields that a field number can select among. -/
def Core.maxFields : Nat := 8

/-- Core memory, with its latest cycle.  The words of the fitted fields follow one another. -/
@[ext] structure Core where
  fieldCount : Nat
  words : Array Word
  last : Reference
  fieldCount_le : fieldCount ≤ Core.maxFields
  size_words : words.size = fieldCount * fieldSize
  deriving Repr

namespace Core

/-- Cleared core of `n` fields, or of eight if `n` is greater. -/
def blank (n : Nat) : Core where
  fieldCount := min n maxFields
  words := Array.replicate (min n maxFields * fieldSize) 0
  last := ⟨.zero, 0⟩
  fieldCount_le := Nat.min_le_right _ _
  size_words := Array.size_replicate

/-- Whether a field is fitted. -/
def isFitted (c : Core) (f : FieldNumber) : Bool := decide (f.toNat < c.fieldCount)

/-- The word at an address, without a memory cycle. -/
def peek (c : Core) (a : Address) : Word :=
  if c.isFitted a.field then c.words.getD a.flatIndex 0 else 0

/-- A read cycle. -/
def read (c : Core) (a : Address) : Core := { c with last := ⟨a, c.peek a⟩ }

/-- A write cycle. -/
def write (c : Core) (a : Address) (word : Word) : Core :=
  if c.isFitted a.field then
    { c with
      words := c.words.setIfInBounds a.flatIndex word
      last := ⟨a, word⟩
      size_words := Array.size_setIfInBounds.trans c.size_words }
  else { c with last := ⟨a, word⟩ }

/-- What a core reports when it is fitted. -/
def sizeEvents (c : Core) : List Event := [.coreSize c.fieldCount]

/-- What a read of an address reports. -/
def readEvents (c : Core) (a : Address) : List Event :=
  if c.isFitted a.field then [] else [.missingRead a]

/-- What a write to an address reports. -/
def writeEvents (c : Core) (a : Address) : List Event :=
  if c.isFitted a.field then [] else [.missingWrite a]

/-- The addresses of a field, in order. -/
def addresses (f : FieldNumber) : List Address :=
  (List.range fieldSize).map fun i => ⟨f, BitVec.ofNat 12 i⟩

/-- Every location that holds something other than zero, in the order of addresses. -/
def nonzero (c : Core) : List (Address × Word) :=
  ((List.range c.fieldCount).flatMap fun f => addresses (BitVec.ofNat 3 f)).filterMap fun a =>
    if c.peek a = 0 then none else some (a, c.peek a)

@[simp] theorem fieldCount_read (c : Core) (a : Address) : (c.read a).fieldCount = c.fieldCount :=
  rfl

@[simp] theorem fieldCount_write (c : Core) (a : Address) (w : Word) :
    (c.write a w).fieldCount = c.fieldCount := by
  unfold write
  split <;> rfl

@[simp] theorem last_write (c : Core) (a : Address) (w : Word) : (c.write a w).last = ⟨a, w⟩ := by
  unfold write
  split <;> rfl

@[simp] theorem peek_read (c : Core) (a b : Address) : (c.read a).peek b = c.peek b := rfl

/-- The place of a fitted address lies within the stored words. -/
theorem flatIndex_lt_size {c : Core} {a : Address} (ha : c.isFitted a.field = true) :
    a.flatIndex < c.words.size := by
  rw [c.size_words]
  exact Address.flatIndex_lt (by simpa [isFitted] using ha)

theorem peek_blank (n : Nat) (a : Address) : (blank n).peek a = 0 := by
  unfold peek blank
  split
  · simp [Array.getD]
  · rfl

theorem peek_write (c : Core) (a b : Address) (w : Word) :
    (c.write a w).peek b = if b = a ∧ c.isFitted a.field = true then w else c.peek b := by
  by_cases hf : c.isFitted a.field = true
  · have hs := flatIndex_lt_size hf
    unfold write
    rw [if_pos hf]
    by_cases hb : b = a
    · subst hb
      rw [if_pos ⟨rfl, hf⟩]
      simp only [peek, isFitted, decide_eq_true_eq] at hf ⊢
      simp [hf, Array.getD, hs]
    · have hne : a.flatIndex ≠ b.flatIndex := fun e => hb (Address.flatIndex_inj.1 e).symm
      rw [if_neg (fun h' => hb h'.1)]
      simp only [peek, isFitted, Array.getD_eq_getD_getElem?,
        Array.getElem?_setIfInBounds_ne hne]
  · unfold write
    rw [if_neg hf, if_neg (fun h' => hf h'.2)]
    rfl

end Core

end Pdp8
