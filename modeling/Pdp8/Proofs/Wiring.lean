import Mathlib.Data.List.Nodup
import Mathlib.Data.List.Pairwise
import Mathlib.Tactic.Ring
import Pdp8.Panel.PinTable

/-!
# Pdp8.Proofs.Wiring — signals on a usable wiring do not disturb one another

In a pin table no pin is used twice, so that the pins of a signal keep what is spread across them,
and the pins of two signals have nothing in common.
-/

namespace Pdp8.PinTable

variable {t : PinTable} {v w : PinVector} {pins : List Nat}

/-! ## Some pins -/

theorem get_spreadPins_of_notMem {pin : Nat} (value : Nat) (h : pin ∉ pins) :
    (spreadPins value pins v).get pin = v.get pin := by
  induction pins generalizing v with
  | nil => rfl
  | cons p pins ih =>
    rw [List.mem_cons, not_or] at h
    unfold spreadPins
    rw [ih h.2, PinVector.get_set, if_neg (fun h' => h.1 h'.1)]

/-- The bits are collected from the left. -/
theorem foldl_gather (v : PinVector) (pins : List Nat) (n : Nat) :
    pins.foldl (fun n pin => 2 * n + (v.get pin).toNat) n =
      n * 2 ^ pins.length + gatherPins v pins := by
  unfold gatherPins
  induction pins generalizing n with
  | nil => simp
  | cons p pins ih =>
    rw [List.foldl_cons, List.foldl_cons, ih (2 * n + _), ih (2 * 0 + _), List.length_cons,
      Nat.pow_succ]
    ring

theorem gatherPins_cons (v : PinVector) (pin : Nat) (pins : List Nat) :
    gatherPins v (pin :: pins) = (v.get pin).toNat * 2 ^ pins.length + gatherPins v pins := by
  have h := foldl_gather v pins (2 * 0 + (v.get pin).toNat)
  rw [Nat.mul_zero, Nat.zero_add] at h
  rw [← h]
  unfold gatherPins
  rw [List.foldl_cons, Nat.mul_zero, Nat.zero_add]

theorem gatherPins_congr (h : ∀ pin ∈ pins, v.get pin = w.get pin) :
    gatherPins v pins = gatherPins w pins := by
  induction pins with
  | nil => rfl
  | cons p pins ih =>
    obtain ⟨hp, hrest⟩ := List.forall_mem_cons.mp h
    rw [gatherPins_cons, gatherPins_cons, hp, ih hrest]

theorem gatherPins_off (n : Nat) (pins : List Nat) : gatherPins (.off n) pins = 0 := by
  induction pins with
  | nil => rfl
  | cons p pins ih =>
    rw [gatherPins_cons, ih, PinVector.get_off]
    simp

theorem gatherPins_lt (v : PinVector) (pins : List Nat) : gatherPins v pins < 2 ^ pins.length := by
  induction pins with
  | nil => exact Nat.one_pos
  | cons p pins ih =>
    have hbit : (v.get p).toNat ≤ 1 := Bool.toNat_le _
    rw [gatherPins_cons, List.length_cons, Nat.pow_succ, Nat.mul_two]
    exact Nat.add_lt_add_of_le_of_lt (mul_le_of_le_one_left (Nat.zero_le _) hbit) ih

/-- As many low bits of a value as there are pins come back. -/
theorem gatherPins_spreadPins (value : Nat) (hnodup : pins.Nodup)
    (hrange : ∀ pin ∈ pins, pin ≤ maxPin) :
    gatherPins (spreadPins value pins v) pins = value % 2 ^ pins.length := by
  induction pins generalizing v with
  | nil => simp [gatherPins, Nat.mod_one]
  | cons p pins ih =>
    obtain ⟨hp, hrest⟩ := List.nodup_cons.mp hnodup
    obtain ⟨hle, hrange'⟩ := List.forall_mem_cons.mp hrange
    have hbit : (spreadPins value (p :: pins) v).get p = value.testBit pins.length := by
      unfold spreadPins
      rw [get_spreadPins_of_notMem value hp, PinVector.get_set, if_pos ⟨rfl, hle⟩]
    rw [gatherPins_cons, hbit]
    unfold spreadPins
    rw [ih hrest hrange', List.length_cons, Nat.mod_pow_succ, Nat.toNat_testBit]
    ring

/-! ## The pins of a signal -/

theorem nodup_pins (t : PinTable) (signal : Signal) : (t.pins signal).Nodup :=
  (List.nodup_flatMap.mp t.isWiring.nodup).1 _ (t.pins_mem signal)

/-- Different signals have no pin in common. -/
theorem notMem_pins_of_ne {s s' : Signal} (h : s' ≠ s) {pin : Nat} (hpin : pin ∈ t.pins s') :
    pin ∉ t.pins s := by
  have hpairs := (List.nodup_flatMap.mp t.isWiring.nodup).2
  have hne : (s', t.pins s') ≠ (s, t.pins s) := fun he => h (congrArg Prod.fst he)
  have : Std.Symm (Function.onFun List.Disjoint (Prod.snd : PinGroup → List Nat)) :=
    ⟨fun _ _ hd _ hb ha => hd ha hb⟩
  exact hpairs.forall (t.pins_mem s') (t.pins_mem s) hne hpin

/-- A signal carries no more than it is wide. -/
theorem gather_lt (t : PinTable) (s : Signal) (v : PinVector) : t.gather s v < 2 ^ s.width := by
  have h := gatherPins_lt v (t.pins s)
  rwa [t.length_pins s] at h

/-- A signal carries the low bits of what is spread across it. -/
@[simp] theorem gather_spread (t : PinTable) (s : Signal) (value : Nat) (v : PinVector) :
    t.gather s (t.spread s value v) = value % 2 ^ s.width := by
  unfold gather spread
  rw [gatherPins_spreadPins value (t.nodup_pins s) fun _ h => le_maxPin_of_mem_pins h, length_pins]

/-- No other signal notices. -/
theorem gather_spread_of_ne {s s' : Signal} (h : s' ≠ s) (value : Nat) (v : PinVector) :
    t.gather s' (t.spread s value v) = t.gather s' v :=
  gatherPins_congr fun _ hpin => get_spreadPins_of_notMem value (notMem_pins_of_ne h hpin)

@[simp] theorem gather_off (t : PinTable) (s : Signal) (n : Nat) : t.gather s (.off n) = 0 :=
  gatherPins_off n (t.pins s)

end Pdp8.PinTable
