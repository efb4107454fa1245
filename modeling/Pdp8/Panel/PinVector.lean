/-!
# Pdp8.Panel.PinVector — the levels of the panel's pins

A pin vector gives the level of every pin at one moment.  Pins beyond its end are off.  Setting a
pin makes the vector long enough to hold it, except that there are no pins above `maxPin`.
-/

namespace Pdp8

/-- The highest pin there is. -/
def maxPin : Nat := 4095

/-- The levels of the pins, from pin 0. -/
structure PinVector where
  levels : Array Bool
  deriving DecidableEq, Repr

namespace PinVector

/-- A vector of `n` pins, all off. -/
def off (n : Nat) : PinVector := ⟨Array.replicate n false⟩

/-- The vector that holds some levels, from pin 0; it is off where there is no pin. -/
def ofLevels (levels : List Bool) : PinVector :=
  ⟨(levels.take (maxPin + 1) ++ List.replicate (levels.length - (maxPin + 1)) false).toArray⟩

/-- The number of pins that the vector holds. -/
def size (v : PinVector) : Nat := v.levels.size

/-- Whether the vector holds no pin. -/
def isEmpty (v : PinVector) : Bool := v.levels.isEmpty

/-- The level of a pin. -/
def get (v : PinVector) (pin : Nat) : Bool := v.levels.getD pin false

/-- The vector made long enough to hold a pin. -/
def extend (v : PinVector) (pin : Nat) : PinVector :=
  ⟨v.levels ++ Array.replicate (pin + 1 - v.levels.size) false⟩

/-- The vector with one pin set to a level. -/
def set (v : PinVector) (pin : Nat) (level : Bool) : PinVector :=
  if maxPin < pin then v else ⟨(v.extend pin).levels.setIfInBounds pin level⟩

theorem get_off (n pin : Nat) : (off n).get pin = false := by
  simp only [get, off, Array.getD_eq_getD_getElem?, Array.getElem?_replicate]
  split <;> rfl

theorem size_ofLevels (levels : List Bool) : (ofLevels levels).size = levels.length := by
  simp only [size, ofLevels, List.size_toArray, List.length_append, List.length_take,
    List.length_replicate]
  omega

theorem get_ofLevels (levels : List Bool) (pin : Nat) :
    (ofLevels levels).get pin = if pin ≤ maxPin then levels.getD pin false else false := by
  simp only [get, ofLevels, Array.getD_eq_getD_getElem?, List.getElem?_toArray,
    List.getElem?_append, List.getElem?_take, List.getElem?_replicate, List.length_take,
    List.getD_eq_getElem?_getD]
  by_cases hp : pin ≤ maxPin
  · rw [if_pos hp]
    by_cases hl : pin < levels.length
    · rw [if_pos (by omega), if_pos (by omega)]
    · rw [if_neg (by omega), if_neg (by omega), List.getElem?_eq_none (by omega)]
  · rw [if_neg hp, if_neg (by omega)]
    split <;> rfl

theorem get_extend (v : PinVector) (pin q : Nat) : (v.extend pin).get q = v.get q := by
  simp only [get, extend, Array.getD_eq_getD_getElem?, Array.getElem?_append,
    Array.getElem?_replicate]
  split
  · rfl
  · rename_i h
    rw [Array.getElem?_eq_none (by omega)]
    split <;> rfl

theorem size_extend (v : PinVector) (pin : Nat) :
    (v.extend pin).levels.size = max v.levels.size (pin + 1) := by
  simp only [extend, Array.size_append, Array.size_replicate]
  omega

theorem get_set (v : PinVector) (pin q : Nat) (level : Bool) :
    (v.set pin level).get q = if q = pin ∧ pin ≤ maxPin then level else v.get q := by
  unfold set
  split
  · rename_i h
    rw [if_neg (by omega)]
  · rename_i h
    by_cases hq : q = pin
    · subst hq
      have hs : q < (v.extend q).levels.size := by rw [size_extend]; omega
      rw [if_pos ⟨rfl, by omega⟩]
      simp [get, Array.getD, hs]
    · rw [if_neg (fun h' => hq h'.1), ← get_extend v pin q]
      simp only [get, Array.getD_eq_getD_getElem?,
        Array.getElem?_setIfInBounds_ne (fun e => hq e.symm)]

theorem size_set (v : PinVector) (pin : Nat) (level : Bool) :
    (v.set pin level).size = if pin ≤ maxPin then max v.size (pin + 1) else v.size := by
  unfold set
  split
  · rw [if_neg (by omega)]
  · rw [if_pos (by omega)]
    simp only [size, Array.size_setIfInBounds, size_extend]

end PinVector

end Pdp8
