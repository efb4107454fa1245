import Pdp8.Panel.PinVector
import Pdp8.Panel.Signal

/-!
# Pdp8.Panel.PinTable — which pin carries which signal

A pin table lists the pins of each signal, the most significant first, and is a usable wiring: each
group has as many pins as its signal is wide, no pin lies above `maxPin`, none is used twice, and
no signal is missing.  `ofGroups` accepts exactly the lists of groups that are one, and names the
first fault of any other.  `spread` and `gather` move values between signals and pin vectors.
-/

namespace Pdp8

/-- Why a list of groups is not a usable wiring. -/
inductive WiringError
  | pinWidth (signal : Signal) (expected got : Nat)
  | duplicatePin (pin : Nat)
  | missingSignal (signal : Signal)
  | pinOutOfRange (pin : Nat)
  deriving DecidableEq, Repr

/-- The wording of a wiring error. -/
def WiringError.message : WiringError → String
  | .pinWidth signal expected got =>
    "signal " ++ signal.name ++ " needs " ++ toString expected
      ++ " pins but the pin table gives it " ++ toString got
  | .duplicatePin pin => "pin " ++ toString pin ++ " is assigned to more than one signal"
  | .missingSignal signal => "pin table has no pins for signal " ++ signal.name
  | .pinOutOfRange pin =>
    "pin " ++ toString pin ++ " is above the highest allowed pin " ++ toString maxPin

/-- A signal and the pins that carry it. -/
abbrev PinGroup := Signal × List Nat

/-- Some groups are a usable wiring. -/
structure IsWiring (groups : List PinGroup) : Prop where
  width : ∀ g ∈ groups, g.2.length = g.1.width
  inRange : ∀ g ∈ groups, ∀ pin ∈ g.2, pin ≤ maxPin
  nodup : (groups.flatMap Prod.snd).Nodup
  complete : ∀ signal, ∃ g ∈ groups, g.1 = signal

/-- The wiring of a panel. -/
structure PinTable where
  groups : List PinGroup
  isWiring : IsWiring groups
  deriving DecidableEq, Repr

namespace PinTable

/-! ### Faults -/

/-- The first fault among the pins of a group, given the pins already in use. -/
def pinsFault? (used : List Nat) : List Nat → Option WiringError
  | [] => none
  | pin :: pins =>
    if maxPin < pin then some (.pinOutOfRange pin)
    else if pin ∈ used then some (.duplicatePin pin)
    else pinsFault? (pin :: used) pins

/-- The first fault among some groups, given the pins already in use; a group's width is looked at
before its pins. -/
def groupsFault? (used : List Nat) : List PinGroup → Option WiringError
  | [] => none
  | (signal, pins) :: groups =>
    if pins.length = signal.width then
      match pinsFault? used pins with
      | some e => some e
      | none => groupsFault? (pins ++ used) groups
    else some (.pinWidth signal signal.width pins.length)

/-- The first signal without a group. -/
def missing? (groups : List PinGroup) : Option Signal :=
  Signal.all.find? fun signal => !groups.any fun g => g.1 == signal

/-- The first fault of some groups; a missing signal comes last. -/
def fault? (groups : List PinGroup) : Option WiringError :=
  match groupsFault? [] groups with
  | some e => some e
  | none => (missing? groups).map .missingSignal

theorem pinsFault?_eq_none_iff (used pins : List Nat) :
    pinsFault? used pins = none ↔
      (∀ pin ∈ pins, pin ≤ maxPin) ∧ pins.Nodup ∧ ∀ pin ∈ pins, pin ∉ used := by
  induction pins generalizing used with
  | nil => simp [pinsFault?]
  | cons pin pins ih =>
    unfold pinsFault?
    by_cases hr : maxPin < pin
    · rw [if_pos hr]
      constructor
      · intro h; cases h
      · intro h; have := h.1 pin List.mem_cons_self; omega
    · rw [if_neg hr]
      by_cases hu : pin ∈ used
      · rw [if_pos hu]
        constructor
        · intro h; cases h
        · intro h; exact absurd hu (h.2.2 pin List.mem_cons_self)
      · rw [if_neg hu, ih]
        constructor
        · rintro ⟨h1, h2, h3⟩
          refine ⟨?_, List.nodup_cons.2 ⟨fun h => h3 pin h List.mem_cons_self, h2⟩, ?_⟩
          · exact List.forall_mem_cons.2 ⟨by omega, h1⟩
          · exact List.forall_mem_cons.2 ⟨hu, fun q hq h => h3 q hq (List.mem_cons_of_mem _ h)⟩
        · rintro ⟨h1, h2, h3⟩
          have hn := List.nodup_cons.1 h2
          refine ⟨(List.forall_mem_cons.1 h1).2, hn.2, fun q hq h => ?_⟩
          rcases List.mem_cons.1 h with rfl | h
          · exact hn.1 hq
          · exact h3 q (List.mem_cons_of_mem _ hq) h

theorem groupsFault?_eq_none_iff (used : List Nat) (groups : List PinGroup) :
    groupsFault? used groups = none ↔
      (∀ g ∈ groups, g.2.length = g.1.width) ∧ (∀ g ∈ groups, ∀ pin ∈ g.2, pin ≤ maxPin) ∧
        (groups.flatMap Prod.snd).Nodup ∧ ∀ pin ∈ groups.flatMap Prod.snd, pin ∉ used := by
  induction groups generalizing used with
  | nil => simp [groupsFault?]
  | cons g groups ih =>
    obtain ⟨signal, pins⟩ := g
    simp only [groupsFault?, List.forall_mem_cons, List.flatMap_cons, List.nodup_append,
      List.mem_append]
    by_cases hw : pins.length = signal.width
    · rw [if_pos hw]
      cases hp : pinsFault? used pins with
      | some e =>
        constructor
        · intro h; cases h
        · rintro ⟨-, h2, h3, h4⟩
          have := (pinsFault?_eq_none_iff used pins).2
            ⟨h2.1, h3.1, fun q hq => h4 q (Or.inl hq)⟩
          rw [hp] at this
          cases this
      | none =>
        obtain ⟨p1, p2, p3⟩ := (pinsFault?_eq_none_iff used pins).1 hp
        simp only [ih, List.mem_append]
        constructor
        · rintro ⟨h1, h2, h3, h4⟩
          refine ⟨⟨hw, h1⟩, ⟨p1, h2⟩, ⟨p2, h3, ?_⟩, ?_⟩
          · rintro a ha b hb rfl; exact h4 a hb (Or.inl ha)
          · rintro q (hq | hq) hu
            · exact p3 q hq hu
            · exact h4 q hq (Or.inr hu)
        · rintro ⟨h1, h2, h3, h4⟩
          refine ⟨h1.2, h2.2, h3.2.1, ?_⟩
          rintro q hq (hu | hu)
          · exact h3.2.2 q hu q hq rfl
          · exact h4 q (Or.inr hq) hu
    · rw [if_neg hw]
      constructor
      · intro h; cases h
      · intro h; exact absurd h.1.1 hw

theorem missing?_eq_none_iff (groups : List PinGroup) :
    missing? groups = none ↔ ∀ signal, ∃ g ∈ groups, g.1 = signal := by
  simp [missing?, Signal.mem_all]

/-- Groups have no fault exactly when they are a usable wiring. -/
theorem fault?_eq_none_iff (groups : List PinGroup) : fault? groups = none ↔ IsWiring groups := by
  unfold fault?
  cases hg : groupsFault? [] groups with
  | some e =>
    constructor
    · intro h; cases h
    · intro h
      have := (groupsFault?_eq_none_iff [] groups).2
        ⟨h.width, h.inRange, h.nodup, fun _ _ => List.not_mem_nil⟩
      rw [hg] at this
      cases this
  | none =>
    obtain ⟨h1, h2, h3, -⟩ := (groupsFault?_eq_none_iff [] groups).1 hg
    simp only [Option.map_eq_none_iff, missing?_eq_none_iff]
    exact ⟨fun h => ⟨h1, h2, h3, h⟩, fun h => h.complete⟩

/-- The table made of some groups, if they are a usable wiring. -/
def ofGroups (groups : List PinGroup) : Except WiringError PinTable :=
  match h : fault? groups with
  | some e => .error e
  | none => .ok ⟨groups, (fault?_eq_none_iff groups).1 h⟩

theorem ofGroups_eq_ok_iff (groups : List PinGroup) (t : PinTable) :
    ofGroups groups = .ok t ↔ t.groups = groups := by
  unfold ofGroups
  split
  · rename_i e h
    constructor
    · intro h'; cases h'
    · rintro rfl
      rw [(fault?_eq_none_iff _).2 t.isWiring] at h
      cases h
  · constructor
    · intro h'; cases h'; rfl
    · rintro rfl; rfl

theorem ofGroups_eq_error_iff (groups : List PinGroup) (e : WiringError) :
    ofGroups groups = .error e ↔ fault? groups = some e := by
  unfold ofGroups
  split
  · rename_i e' h
    rw [h]
    constructor
    · intro h'; cases h'; rfl
    · intro h'; cases h'; rfl
  · rename_i h
    constructor
    · intro h'; cases h'
    · intro h'; rw [h] at h'; cases h'

/-! ### Signals and pins -/

/-- Groups for some signals on consecutive pins. -/
def layOut (next : Nat) : List Signal → List PinGroup
  | [] => []
  | signal :: signals =>
    (signal, List.range' next signal.width) :: layOut (next + signal.width) signals

/-- The standard wiring: switches and keys on pins 0 to 21, then the lights. -/
def standard : PinTable where
  groups := layOut 0 Signal.all
  isWiring := (fault?_eq_none_iff _).1 (by decide)

/-- One more than the highest pin in use. -/
def pinCount (t : PinTable) : Nat :=
  (t.groups.flatMap Prod.snd).foldl (fun n pin => max n (pin + 1)) 0

/-- The pins of a signal, if the table has it. -/
def pins? (t : PinTable) (signal : Signal) : Option (List Nat) :=
  (t.groups.find? fun g => g.1 == signal).map Prod.snd

/-- The pins of a signal; where it is listed twice, those of its first group. -/
def pins (t : PinTable) (signal : Signal) : List Nat := (t.pins? signal).getD []

theorem pins_mem (t : PinTable) (signal : Signal) : (signal, t.pins signal) ∈ t.groups := by
  unfold pins pins?
  cases h : t.groups.find? fun g => g.1 == signal with
  | none =>
    obtain ⟨g, hg, rfl⟩ := t.isWiring.complete signal
    have := List.find?_eq_none.1 h g hg
    simp at this
  | some g =>
    have hs : g.1 = signal := by simpa using List.find?_some h
    subst hs
    exact List.mem_of_find?_eq_some h

@[simp] theorem length_pins (t : PinTable) (signal : Signal) :
    (t.pins signal).length = signal.width :=
  t.isWiring.width _ (t.pins_mem signal)

theorem le_maxPin_of_mem_pins {t : PinTable} {signal : Signal} {pin : Nat}
    (h : pin ∈ t.pins signal) : pin ≤ maxPin :=
  t.isWiring.inRange _ (t.pins_mem signal) pin h

/-- Set some pins to the low bits of a value, the last pin to the lowest. -/
def spreadPins (value : Nat) : List Nat → PinVector → PinVector
  | [], v => v
  | pin :: pins, v => spreadPins value pins (v.set pin (value.testBit pins.length))

/-- The value of some pins, the last being the lowest bit. -/
def gatherPins (v : PinVector) (pins : List Nat) : Nat :=
  pins.foldl (fun n pin => 2 * n + (v.get pin).toNat) 0

/-- Spread the low bits of a value across the pins of a signal. -/
def spread (t : PinTable) (signal : Signal) (value : Nat) (v : PinVector) : PinVector :=
  spreadPins value (t.pins signal) v

/-- Collect the pins of a signal into a value. -/
def gather (t : PinTable) (signal : Signal) (v : PinVector) : Nat := gatherPins v (t.pins signal)

/-- Whether a pin belongs to a group that the outside drives. -/
def isInputPin (t : PinTable) (pin : Nat) : Bool :=
  t.groups.any fun g => g.1.isInput && g.2.contains pin

end PinTable

end Pdp8
