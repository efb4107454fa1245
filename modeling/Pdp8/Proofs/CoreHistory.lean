import Pdp8.Proofs.Memory

/-!
# Pdp8.Proofs.CoreHistory — core as its accesses have left it

Core is a finite map.  Every address of a fitted field has a place of its own among the words, and
holds what was written there last; nothing else is ever changed.  A field that is not fitted is
zero whatever is written to it, and yet the latest cycle is remembered, wherever it went.
-/

namespace Pdp8

namespace Core

/-- What can be asked of core: a read cycle, a write cycle, or a look without a cycle. -/
inductive Access
  | read (a : Address)
  | write (a : Address) (word : Word)
  | peek (a : Address)
  deriving DecidableEq, Repr

/-- Core after an access. -/
def access (c : Core) : Access → Core
  | .read a => c.read a
  | .write a word => c.write a word
  | .peek _ => c

/-- The word that an access gives. -/
def answer (c : Core) : Access → Option Word
  | .read a => some (c.peek a)
  | .write _ _ => none
  | .peek a => some (c.peek a)

/-- Core after some accesses, in order. -/
def accessAll (c : Core) (accesses : List Access) : Core := accesses.foldl access c

namespace Access

/-- An access that gives the word at an address. -/
def AsksFor (a : Address) (x : Access) : Prop := x = .read a ∨ x = .peek a

/-- The latest of some accesses that wrote to an address wrote this word. -/
def WroteLast (accesses : List Access) (a : Address) (word : Word) : Prop :=
  ∃ earlier later, accesses = earlier ++ .write a word :: later ∧ ∀ w, .write a w ∉ later

/-- The latest memory cycle among some accesses, with those before it. -/
def CycledLast (accesses earlier : List Access) (x : Access) : Prop :=
  ∃ later, accesses = earlier ++ x :: later ∧ ∀ y ∈ later, ∃ a, y = .peek a

end Access

open Access

variable {c : Core} {accesses : List Access} {a : Address} {word : Word}

/-! ## One access -/

@[simp] theorem fieldCount_access (c : Core) (x : Access) :
    (c.access x).fieldCount = c.fieldCount := by
  cases x with
  | read a => rfl
  | write a word => exact c.fieldCount_write a word
  | peek a => rfl

/-- Only a write to an address changes what is there. -/
theorem peek_access_of_ne {x : Access} (h : ∀ w, x ≠ .write a w) :
    (c.access x).peek a = c.peek a := by
  cases x with
  | read b => rfl
  | write b word =>
    have hb : a ≠ b := fun hb => h word (by rw [hb])
    exact (c.peek_write b a word).trans (if_neg fun hw => hb hw.1)
  | peek b => rfl

theorem peek_of_not_fitted (h : c.isFitted a.field = false) : c.peek a = 0 := by
  unfold peek
  rw [h]
  rfl

/-- A fitted address is read at its place. -/
theorem peek_eq_getElem (h : c.isFitted a.field = true) (hplace : a.flatIndex < c.words.size) :
    c.peek a = c.words[a.flatIndex] := by
  unfold peek
  rw [if_pos h]
  simp [Array.getD, hplace]

/-- A fitted address is written at its place. -/
theorem words_write (h : c.isFitted a.field = true) (word : Word) :
    (c.write a word).words = c.words.set a.flatIndex word (flatIndex_lt_size h) := by
  have hplace := flatIndex_lt_size h
  unfold write
  rw [if_pos h]
  simp [Array.setIfInBounds, hplace]

theorem words_write_of_not_fitted (h : c.isFitted a.field = false) (word : Word) :
    (c.write a word).words = c.words := by
  unfold write
  rw [h]
  rfl

/-! ## Histories -/

theorem accessAll_append (c : Core) (xs ys : List Access) :
    c.accessAll (xs ++ ys) = (c.accessAll xs).accessAll ys := List.foldl_append

@[simp] theorem fieldCount_accessAll (c : Core) (accesses : List Access) :
    (c.accessAll accesses).fieldCount = c.fieldCount := by
  induction accesses generalizing c with
  | nil => rfl
  | cons x accesses ih => exact (ih (c.access x)).trans (c.fieldCount_access x)

theorem peek_accessAll_of_not_written (h : ∀ w, .write a w ∉ accesses) :
    (c.accessAll accesses).peek a = c.peek a := by
  induction accesses generalizing c with
  | nil => rfl
  | cons x accesses ih =>
    have hx (w : Word) : x ≠ .write a w := by
      rintro rfl
      exact h w List.mem_cons_self
    have hrest (w : Word) : .write a w ∉ accesses := fun hw => h w (List.mem_cons_of_mem _ hw)
    exact (ih hrest).trans (peek_access_of_ne hx)

/-- A fitted address holds what was written to it last. -/
theorem peek_accessAll (hfitted : c.isFitted a.field = true) (h : WroteLast accesses a word) :
    (c.accessAll accesses).peek a = word := by
  obtain ⟨earlier, later, rfl, hlater⟩ := h
  have hfitted' : (c.accessAll earlier).isFitted a.field = true := by
    unfold isFitted
    rw [fieldCount_accessAll]
    exact hfitted
  rw [accessAll_append]
  refine (peek_accessAll_of_not_written hlater).trans ?_
  exact (peek_write _ a a word).trans (if_pos ⟨rfl, hfitted'⟩)

/-- Looks without a cycle are not remembered. -/
theorem last_accessAll_of_peeks (h : ∀ y ∈ accesses, ∃ a, y = .peek a) :
    (c.accessAll accesses).last = c.last := by
  induction accesses generalizing c with
  | nil => rfl
  | cons x accesses ih =>
    obtain ⟨hx, hrest⟩ := List.forall_mem_cons.mp h
    obtain ⟨b, rfl⟩ := hx
    exact ih hrest

/-- The latest cycle is. -/
theorem last_accessAll {earlier : List Access} {x : Access} (h : CycledLast accesses earlier x) :
    (c.accessAll accesses).last = ((c.accessAll earlier).access x).last := by
  obtain ⟨later, rfl, hlater⟩ := h
  rw [accessAll_append]
  exact last_accessAll_of_peeks hlater

/-- What becomes of core, cleared with `n` fields, through some accesses. -/
structure Recalls (n : Nat) (accesses : List Access) (c : Core) : Prop where
  /-- There are as many fields as were asked for, but no more than eight, and they are stored one
  after another. -/
  size : c.fieldCount = min n 8 ∧ c.words.size = min n 8 * 4096
  /-- An access to a fitted field stays within the words. -/
  within : ∀ a, a.field.toNat < min n 8 → ∃ h : a.flatIndex < c.words.size,
    (∀ x, AsksFor a x → c.answer x = some c.words[a.flatIndex]) ∧
      ∀ word, (c.access (.write a word)).words = c.words.set a.flatIndex word h
  /-- A fitted address gives the word written to it last. -/
  written : ∀ a word x, a.field.toNat < min n 8 → WroteLast accesses a word → AsksFor a x →
    c.answer x = some word
  /-- An address that has not been written to gives zero. -/
  unwritten : ∀ a x, (∀ word, .write a word ∉ accesses) → AsksFor a x → c.answer x = some 0
  /-- An address that is not fitted gives zero. -/
  missing : ∀ a x, min n 8 ≤ a.field.toNat → AsksFor a x → c.answer x = some 0
  /-- No word is changed by reading it, or by writing to a field that is not fitted. -/
  kept : (∀ a x, AsksFor a x → (c.access x).words = c.words) ∧
    ∀ a word, min n 8 ≤ a.field.toNat → (c.access (.write a word)).words = c.words
  /-- The latest read is remembered with the word that was there. -/
  lastRead : ∀ earlier a, CycledLast accesses earlier (.read a) →
    c.last = ⟨a, ((blank n).accessAll earlier).peek a⟩
  /-- The latest write is remembered with the word that was offered. -/
  lastWrite : ∀ earlier a word, CycledLast accesses earlier (.write a word) → c.last = ⟨a, word⟩
  /-- Nothing is remembered before there has been a cycle. -/
  noCycle : (∀ y ∈ accesses, ∃ a, y = .peek a) → c.last = ⟨.zero, 0⟩

theorem answer_eq_peek {x : Access} (h : AsksFor a x) : c.answer x = some (c.peek a) := by
  rcases h with rfl | rfl <;> rfl

/-- Core is a finite map from the addresses of its fields to words, whatever is done to it. -/
theorem recalls_history (n : Nat) (accesses : List Access) :
    Recalls n accesses ((blank n).accessAll accesses) := by
  have hcount : ((blank n).accessAll accesses).fieldCount = min n 8 := fieldCount_accessAll _ _
  have hfitted {a : Address} (h : a.field.toNat < min n 8) :
      ((blank n).accessAll accesses).isFitted a.field = true := by
    unfold isFitted
    rw [hcount]
    exact decide_eq_true h
  have hmissing {a : Address} (h : min n 8 ≤ a.field.toNat) :
      ((blank n).accessAll accesses).isFitted a.field = false := by
    unfold isFitted
    rw [hcount]
    exact decide_eq_false (by omega)
  constructor
  · refine ⟨hcount, ?_⟩
    rw [size_words, hcount]
    rfl
  · intro a ha
    have hplace := flatIndex_lt_size (hfitted ha)
    refine ⟨hplace, ?_, words_write (hfitted ha)⟩
    intro x hx
    rw [answer_eq_peek hx, peek_eq_getElem (hfitted ha) hplace]
  · intro a word x ha hlast hx
    rw [answer_eq_peek hx, peek_accessAll (decide_eq_true ha) hlast]
  · intro a x hnone hx
    rw [answer_eq_peek hx, peek_accessAll_of_not_written hnone, peek_blank]
  · intro a x ha hx
    rw [answer_eq_peek hx, peek_of_not_fitted (hmissing ha)]
  · refine ⟨?_, fun a word ha => words_write_of_not_fitted (hmissing ha) word⟩
    rintro a x (rfl | rfl) <;> rfl
  · intro earlier a hlast
    exact last_accessAll hlast
  · intro earlier a word hlast
    exact (last_accessAll hlast).trans (last_write _ a word)
  · intro hpeeks
    exact last_accessAll_of_peeks hpeeks

end Core

end Pdp8
