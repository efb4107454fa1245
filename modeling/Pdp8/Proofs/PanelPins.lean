import Mathlib.Data.List.Induction
import Pdp8.Panel
import Pdp8.Proofs.Wiring

/-!
# Pdp8.Proofs.PanelPins — what can be read from the pins of a panel

Whatever has been written to a panel, a read gives as many pins as its table has, on which every
light shows its value, and every switch and key has the level it was last written with.  The wiring
does not matter: pins may lie anywhere, and a signal may have a second group of them.
-/

namespace Pdp8

/-- What a light signal shows; there are no data break cycles. -/
def Lights.value (l : Lights) : Signal → Nat
  | .accumulator => l.accumulator.toNat
  | .memoryAddress => l.memoryAddress.toNat
  | .memoryBuffer => l.memoryBuffer.toNat
  | .instructionRegister => l.instructionRegister.toNat
  | .fetch => l.fetch.toNat
  | .defer => l.defer.toNat
  | .execute => l.execute.toNat
  | .interruptOn => l.interruptOn.toNat
  | .run => l.run.toNat
  | .extendedAddress => l.extendedAddress.toNat
  | .link => l.link.toNat
  | _ => 0

theorem Lights.value_lt (l : Lights) (s : Signal) : l.value s < 2 ^ s.width := by
  have hflag (b : Bool) : b.toNat < 2 ^ 1 := by cases b <;> decide
  have hoff : 0 < 2 ^ s.width := Nat.two_pow_pos _
  cases s
  case accumulator => exact l.accumulator.isLt
  case memoryAddress => exact l.memoryAddress.isLt
  case memoryBuffer => exact l.memoryBuffer.isLt
  case instructionRegister => exact l.instructionRegister.isLt
  case fetch => exact hflag _
  case defer => exact hflag _
  case execute => exact hflag _
  case interruptOn => exact hflag _
  case run => exact hflag _
  case extendedAddress => exact hflag _
  case link => exact hflag _
  all_goals exact hoff

/-- The overlay of the lights: each light signal once, with what it shows. -/
theorem Lights.values_eq (l : Lights) :
    l.values = (Signal.all.filter (!·.isInput)).map fun s => (s, l.value s) := rfl

/-! ## Pins of a table -/

namespace PinTable

variable {t : PinTable} {v : PinVector}

/-- A bound on the pins, and on a first bound, is one on what is counted from there. -/
theorem foldl_pinCount_le_iff {pins : List Nat} {n m : Nat} :
    pins.foldl (fun n pin => max n (pin + 1)) n ≤ m ↔ n ≤ m ∧ ∀ pin ∈ pins, pin < m := by
  induction pins generalizing n with
  | nil => simp
  | cons pin pins ih =>
    rw [List.foldl_cons, ih, List.forall_mem_cons, Nat.max_le, Nat.succ_le_iff, and_assoc]

theorem lt_pinCount_of_mem {s : Signal} {pin : Nat} (h : pin ∈ t.pins s) : pin < t.pinCount := by
  have hall := (foldl_pinCount_le_iff.mp (Nat.le_refl t.pinCount)).2
  exact hall pin (List.mem_flatMap.mpr ⟨_, t.pins_mem s, h⟩)

theorem pinCount_le (t : PinTable) : t.pinCount ≤ maxPin + 1 := by
  refine foldl_pinCount_le_iff.mpr ⟨Nat.zero_le _, ?_⟩
  intro pin hpin
  obtain ⟨g, hg, hpin⟩ := List.mem_flatMap.mp hpin
  exact Nat.lt_succ_of_le (t.isWiring.inRange g hg pin hpin)

theorem isInputPin_of_mem {s : Signal} (hs : s.isInput = true) {pin : Nat} (h : pin ∈ t.pins s) :
    t.isInputPin pin = true := by
  unfold isInputPin
  rw [List.any_eq_true]
  exact ⟨_, t.pins_mem s, by simpa [hs] using h⟩

/-- Pins that are there already make a vector no longer. -/
theorem size_spreadPins {pins : List Nat} (value : Nat) (h : ∀ pin ∈ pins, pin < v.size) :
    (spreadPins value pins v).size = v.size := by
  induction pins generalizing v with
  | nil => rfl
  | cons pin pins ih =>
    obtain ⟨hpin, hpins⟩ := List.forall_mem_cons.mp h
    have hset (level : Bool) : (v.set pin level).size = v.size := by
      rw [PinVector.size_set]
      split
      · omega
      · rfl
    unfold spreadPins
    rw [ih (by rw [hset]; exact hpins), hset]

theorem size_spread (s : Signal) (value : Nat) (h : t.pinCount ≤ v.size) :
    (t.spread s value v).size = v.size :=
  size_spreadPins value fun _ hpin => Nat.lt_of_lt_of_le (lt_pinCount_of_mem hpin) h

/-! ## Several signals one after another -/

section Spreads

variable {values : List (Signal × Nat)}

theorem size_foldl_spread (h : t.pinCount ≤ v.size) :
    (values.foldl (fun out light => t.spread light.1 light.2 out) v).size = v.size := by
  induction values generalizing v with
  | nil => rfl
  | cons light values ih =>
    have hsize : (t.spread light.1 light.2 v).size = v.size := size_spread _ _ h
    rw [List.foldl_cons, ih (by rw [hsize]; exact h), hsize]

theorem gather_foldl_spread_of_notMem {s : Signal} (h : s ∉ values.map Prod.fst) :
    t.gather s (values.foldl (fun out light => t.spread light.1 light.2 out) v) = t.gather s v := by
  induction values generalizing v with
  | nil => rfl
  | cons light values ih =>
    rw [List.map_cons, List.mem_cons, not_or] at h
    rw [List.foldl_cons, ih h.2, gather_spread_of_ne h.1]

/-- A signal that is spread once keeps its value. -/
theorem gather_foldl_spread {s : Signal} {value : Nat} (hnodup : (values.map Prod.fst).Nodup)
    (h : (s, value) ∈ values) :
    t.gather s (values.foldl (fun out light => t.spread light.1 light.2 out) v) =
      value % 2 ^ s.width := by
  induction values generalizing v with
  | nil => cases h
  | cons light values ih =>
    rw [List.map_cons, List.nodup_cons] at hnodup
    rw [List.foldl_cons]
    rcases List.mem_cons.mp h with rfl | h
    · rw [gather_foldl_spread_of_notMem hnodup.1, gather_spread]
    · exact ih hnodup.2 h

end Spreads

end PinTable

/-! ## Writes and reads of a panel -/

namespace Panel

/-- A panel after some writes of the pins. -/
def afterWrites (t : PinTable) (writes : List PinVector) : Panel :=
  writes.foldl (fun p v => (p.accept v).2.2) (ofTable t)

/-- Of the writes a panel keeps the last. -/
theorem afterWrites_eq (t : PinTable) (writes : List PinVector) :
    afterWrites t writes = ⟨t, writes.getLast?.getD (.off t.pinCount)⟩ := by
  induction writes using List.reverseRecOn with
  | nil => rfl
  | append_singleton writes v ih =>
    have hlast : afterWrites t (writes ++ [v]) = ((afterWrites t writes).accept v).2.2 :=
      List.foldl_concat _ _ _ _
    rw [hlast, ih, List.getLast?_concat]
    rfl

variable (p : Panel)

/-- An input pin among those that are gone through has the level it was written with. -/
theorem get_foldl_echo {pin : Nat} (hpin : pin ≤ maxPin) (hinput : p.table.isInputPin pin = true)
    (pins : List Nat) (v : PinVector) :
    (pins.foldl
        (fun out pin => if p.table.isInputPin pin then out.set pin (p.written.get pin) else out)
        v).get pin =
      if pin ∈ pins then p.written.get pin else v.get pin := by
  induction pins generalizing v with
  | nil => rfl
  | cons q pins ih =>
    rw [List.foldl_cons, ih]
    by_cases hq : pin = q
    · subst hq
      simp [hinput, PinVector.get_set, hpin]
    · have hother :
          (if p.table.isInputPin q then v.set q (p.written.get q) else v).get pin = v.get pin := by
        split
        · rw [PinVector.get_set, if_neg fun h => hq h.1]
        · rfl
      simp only [hother, List.mem_cons, hq, false_or]

theorem get_echo {pin : Nat} (hpin : pin < p.table.pinCount)
    (hinput : p.table.isInputPin pin = true) : p.echo.get pin = p.written.get pin := by
  have hmax : pin ≤ maxPin := Nat.le_of_lt_succ (Nat.lt_of_lt_of_le hpin p.table.pinCount_le)
  unfold echo
  rw [p.get_foldl_echo hmax hinput, if_pos (List.mem_range.mpr hpin)]

theorem size_foldl_echo (pins : List Nat) (v : PinVector) (h : ∀ pin ∈ pins, pin < v.size) :
    (pins.foldl
        (fun out pin => if p.table.isInputPin pin then out.set pin (p.written.get pin) else out)
        v).size = v.size := by
  induction pins generalizing v with
  | nil => rfl
  | cons pin pins ih =>
    obtain ⟨hpin, hpins⟩ := List.forall_mem_cons.mp h
    have hstep (level : Bool) :
        (if p.table.isInputPin pin then v.set pin level else v).size = v.size := by
      split
      · rw [PinVector.size_set]
        split <;> omega
      · rfl
    rw [List.foldl_cons, ih _ (by rw [hstep]; exact hpins), hstep]

theorem size_echo : p.echo.size = p.table.pinCount := by
  have hoff : (PinVector.off p.table.pinCount).size = p.table.pinCount := by
    simp [PinVector.off, PinVector.size]
  unfold echo
  rw [size_foldl_echo _ _ _ (fun pin hpin => by rw [hoff]; exact List.mem_range.mp hpin), hoff]

variable (l : Lights)

theorem size_render : (p.render l).size = p.table.pinCount := by
  unfold render
  rw [PinTable.size_foldl_spread (Nat.le_of_eq p.size_echo.symm), p.size_echo]

/-- Every light shows its value. -/
theorem gather_render_light {s : Signal} (hs : s.isInput = false) :
    p.table.gather s (p.render l) = l.value s := by
  have hkeys : l.values.map Prod.fst = Signal.all.filter (!·.isInput) := rfl
  have hmem : (s, l.value s) ∈ l.values := by
    rw [l.values_eq]
    exact List.mem_map.mpr ⟨s, List.mem_filter.mpr ⟨s.mem_all, by rw [hs]; rfl⟩, rfl⟩
  unfold render
  rw [PinTable.gather_foldl_spread (by rw [hkeys]; decide) hmem]
  exact Nat.mod_eq_of_lt (l.value_lt s)

/-- Every input is as it was last written. -/
theorem gather_render_input {s : Signal} (hs : s.isInput = true) :
    p.table.gather s (p.render l) = p.table.gather s p.written := by
  have hkeys : l.values.map Prod.fst = Signal.all.filter (!·.isInput) := rfl
  have hnot : s ∉ l.values.map Prod.fst := by
    rw [hkeys, List.mem_filter, hs]
    exact fun h => Bool.false_ne_true h.2
  unfold render
  rw [PinTable.gather_foldl_spread_of_notMem hnot]
  exact PinTable.gatherPins_congr fun pin hpin =>
    p.get_echo (PinTable.lt_pinCount_of_mem hpin) (PinTable.isInputPin_of_mem hs hpin)

/-- On every wiring signals are independent of one another: one keeps the low bits of what is spread
across it and leaves the others alone.  So after any writes a read has the pins of the table, with
the values of the lights, and with the inputs of the last write, if there was one. -/
theorem signals_independent (t : PinTable) :
    (∀ (v : PinVector) (s : Signal) (value : Nat),
        t.gather s (t.spread s value v) = value % 2 ^ s.width ∧
          ∀ s', s' ≠ s → t.gather s' (t.spread s value v) = t.gather s' v) ∧
      ∀ (writes : List PinVector) (l : Lights),
        let pins := (afterWrites t writes).render l
        pins.size = t.pinCount ∧
          (∀ s : Signal, s.isInput = false → t.gather s pins = l.value s) ∧
          ∀ s : Signal, s.isInput = true →
            t.gather s pins = (writes.getLast?.map (t.gather s)).getD 0 := by
  refine ⟨fun v s value =>
    ⟨t.gather_spread s value v, fun s' hs => PinTable.gather_spread_of_ne hs value v⟩, ?_⟩
  intro writes l pins
  have htable : (afterWrites t writes).table = t := by rw [afterWrites_eq]
  have hsize := (afterWrites t writes).size_render l
  have hlight {s : Signal} := (afterWrites t writes).gather_render_light l (s := s)
  have hinput {s : Signal} := (afterWrites t writes).gather_render_input l (s := s)
  rw [htable] at hsize hlight hinput
  refine ⟨hsize, fun s => hlight, ?_⟩
  intro s hs
  rw [hinput hs, afterWrites_eq]
  cases writes.getLast? with
  | none => exact t.gather_off s _
  | some v => rfl

/-- STOP a second time, on a pin far from the others, and writes that are shorter and longer than
the table. -/
theorem signals_independent_second_group :
    let t : PinTable :=
      ⟨(.stop, [100]) :: PinTable.standard.groups, (PinTable.fault?_eq_none_iff _).1 (by decide)⟩
    let pins := (afterWrites t [.off 3, (PinVector.off 200).set 100 true]).render
      { Lights.off with accumulator := 0o7070 }
    (Signal.link ≠ .stop ∧ t.gather .link (t.spread .stop 1 (.off 3)) = 0) ∧ pins.size = 101 ∧
      (Signal.accumulator.isInput = false ∧ t.gather .accumulator pins = 0o7070) ∧
      Signal.stop.isInput = true ∧ t.gather .stop pins = 1 := by
  intro t pins
  obtain ⟨hspread, hread⟩ := signals_independent t
  have hne : Signal.link ≠ .stop := by decide
  obtain ⟨hsize, hlight, hinput⟩ :=
    hread [.off 3, (PinVector.off 200).set 100 true] { Lights.off with accumulator := 0o7070 }
  refine ⟨⟨hne, ?_⟩, hsize.trans (by decide +kernel), ⟨rfl, hlight .accumulator rfl⟩, rfl, ?_⟩
  · exact ((hspread (.off 3) .stop 1).2 .link hne).trans (t.gather_off _ _)
  · exact (hinput .stop rfl).trans (by decide +kernel)

end Panel

end Pdp8
