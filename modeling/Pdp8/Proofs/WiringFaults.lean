import Pdp8.Proofs.PanelPins

/-!
# Pdp8.Proofs.WiringFaults — which lists of groups make a pin table

A list of groups makes a pin table exactly when it is a usable wiring.  Of any other list the first
fault is named, going through the groups in order, and through the pins of a group once their number
is right.  Whether a signal is missing is asked last, of groups that have no other fault.
-/

namespace Pdp8

namespace PinTable

variable {used used' pins : List Nat} {groups : List PinGroup} {g : PinGroup} {e : WiringError}

/-! ## Faults, as a reader of the list meets them -/

/-- Pins that can be put to use when others are in use already. -/
structure Usable (used pins : List Nat) : Prop where
  inRange : ∀ pin ∈ pins, pin ≤ maxPin
  nodup : pins.Nodup
  unused : ∀ pin ∈ pins, pin ∉ used

/-- What is wrong with a group, when some pins are in use already. -/
inductive GroupFault (used : List Nat) : PinGroup → WiringError → Prop
  | width {signal : Signal} {pins : List Nat} :
    pins.length ≠ signal.width →
    GroupFault used (signal, pins) (.pinWidth signal signal.width pins.length)
  | outOfRange {signal : Signal} {earlier later : List Nat} {pin : Nat} :
    (earlier ++ pin :: later).length = signal.width → Usable used earlier → maxPin < pin →
    GroupFault used (signal, earlier ++ pin :: later) (.pinOutOfRange pin)
  | duplicate {signal : Signal} {earlier later : List Nat} {pin : Nat} :
    (earlier ++ pin :: later).length = signal.width → Usable used earlier → pin ≤ maxPin →
    pin ∈ used ∨ pin ∈ earlier →
    GroupFault used (signal, earlier ++ pin :: later) (.duplicatePin pin)

/-- Groups that have as many pins as they need, all of them usable together. -/
structure Faultless (groups : List PinGroup) : Prop where
  width : ∀ g ∈ groups, g.2.length = g.1.width
  usable : Usable [] (groups.flatMap Prod.snd)

/-- The first thing that is wrong with a list of groups. -/
inductive FirstFault : List PinGroup → WiringError → Prop
  | group {before after : List PinGroup} {g : PinGroup} {e : WiringError} :
    Faultless before → GroupFault (before.flatMap Prod.snd) g e →
    FirstFault (before ++ g :: after) e
  | missing {groups : List PinGroup} {earlier later : List Signal} {signal : Signal} :
    Faultless groups → Signal.all = earlier ++ signal :: later →
    (∀ s ∈ earlier, ∃ g ∈ groups, g.1 = s) → (∀ g ∈ groups, g.1 ≠ signal) →
    FirstFault groups (.missingSignal signal)

theorem Usable.congr (h : ∀ pin, pin ∈ used ↔ pin ∈ used') (hu : Usable used pins) :
    Usable used' pins :=
  ⟨hu.inRange, hu.nodup, fun pin hpin hmem => hu.unused pin hpin ((h pin).mpr hmem)⟩

/-- It matters which pins are in use, not in what order they came. -/
theorem GroupFault.congr (h : ∀ pin, pin ∈ used ↔ pin ∈ used') (hf : GroupFault used g e) :
    GroupFault used' g e := by
  cases hf with
  | width hw => exact .width hw
  | outOfRange hw hu hr => exact .outOfRange hw (hu.congr h) hr
  | duplicate hw hu hr hd => exact .duplicate hw (hu.congr h) hr (hd.imp_left (h _).mp)

/-! ## The scan -/

theorem groupsFault?_nil_eq_none_iff : groupsFault? [] groups = none ↔ Faultless groups := by
  rw [groupsFault?_eq_none_iff]
  constructor
  · rintro ⟨hw, hr, hn, hu⟩
    refine ⟨hw, ?_, hn, hu⟩
    intro pin hpin
    obtain ⟨g, hg, hpin⟩ := List.mem_flatMap.mp hpin
    exact hr g hg pin hpin
  · rintro ⟨hw, hr, hn, hu⟩
    exact ⟨hw, fun g hg pin hpin => hr pin (List.mem_flatMap.mpr ⟨g, hg, hpin⟩), hn, hu⟩

theorem usable_nil : Usable used [] where
  inRange _ hpin := absurd hpin List.not_mem_nil
  nodup := .nil
  unused _ hpin := absurd hpin List.not_mem_nil

/-- Going on past a pin, it counts as used. -/
theorem usable_cons {pin : Nat} :
    Usable used (pin :: pins) ↔ (pin ≤ maxPin ∧ pin ∉ used) ∧ Usable (pin :: used) pins := by
  constructor
  · rintro ⟨hr, hn, hu⟩
    obtain ⟨hrange, hr⟩ := List.forall_mem_cons.mp hr
    obtain ⟨hunused, hu⟩ := List.forall_mem_cons.mp hu
    obtain ⟨hnew, hn⟩ := List.nodup_cons.mp hn
    refine ⟨⟨hrange, hunused⟩, hr, hn, ?_⟩
    intro q hq hmem
    rcases List.mem_cons.mp hmem with rfl | hmem
    · exact hnew hq
    · exact hu q hq hmem
  · rintro ⟨⟨hrange, hunused⟩, hr, hn, hu⟩
    refine ⟨List.forall_mem_cons.mpr ⟨hrange, hr⟩, List.nodup_cons.mpr ⟨?_, hn⟩,
      List.forall_mem_cons.mpr ⟨hunused, ?_⟩⟩
    · exact fun hmem => hu pin hmem List.mem_cons_self
    · exact fun q hq hmem => hu q hq (List.mem_cons_of_mem _ hmem)

/-- The scan of some pins stops at the first that cannot be put to use, be it for its number or
because it is in use already. -/
theorem pinsFault?_eq_some_iff :
    pinsFault? used pins = some e ↔
      ∃ earlier pin later, pins = earlier ++ pin :: later ∧ Usable used earlier ∧
        (maxPin < pin ∧ e = .pinOutOfRange pin ∨
          pin ≤ maxPin ∧ (pin ∈ used ∨ pin ∈ earlier) ∧ e = .duplicatePin pin) := by
  induction pins generalizing used with
  | nil => simp [pinsFault?]
  | cons pin pins ih =>
    have hmem (earlier : List Nat) (q : Nat) :
        q ∈ used ∨ q ∈ pin :: earlier ↔ q ∈ pin :: used ∨ q ∈ earlier := by
      simp only [List.mem_cons]
      tauto
    unfold pinsFault?
    constructor
    · intro h
      split_ifs at h with hr hd
      · cases h
        exact ⟨[], pin, pins, rfl, usable_nil, .inl ⟨hr, rfl⟩⟩
      · cases h
        exact ⟨[], pin, pins, rfl, usable_nil, .inr ⟨by omega, .inl hd, rfl⟩⟩
      · obtain ⟨earlier, q, later, rfl, hu, hq⟩ := ih.mp h
        refine ⟨pin :: earlier, q, later, rfl, usable_cons.mpr ⟨⟨by omega, hd⟩, hu⟩, ?_⟩
        rw [hmem]
        exact hq
    · rintro ⟨earlier, q, later, heq, hu, hq⟩
      cases earlier with
      | nil =>
        cases heq
        rcases hq with ⟨hr, rfl⟩ | ⟨hle, hused, rfl⟩
        · rw [if_pos hr]
        · rw [if_neg (by omega), if_pos (hused.resolve_right List.not_mem_nil)]
      | cons p earlier =>
        cases heq
        obtain ⟨⟨hr, hd⟩, hu⟩ := usable_cons.mp hu
        rw [hmem] at hq
        rw [if_neg (by omega), if_neg hd]
        exact ih.mpr ⟨earlier, q, later, rfl, hu, hq⟩

/-- The scan of a list is that of its first group, and then that of the others. -/
theorem groupsFault?_cons (used : List Nat) (g : PinGroup) (groups : List PinGroup) :
    groupsFault? used (g :: groups) =
      (groupsFault? used [g]).or (groupsFault? (g.2 ++ used) groups) := by
  obtain ⟨signal, pins⟩ := g
  simp only [groupsFault?]
  split_ifs
  · cases pinsFault? used pins <;> rfl
  · rfl

/-- The width of a group is looked at before its pins. -/
theorem groupsFault?_singleton_eq_some_iff :
    groupsFault? used [g] = some e ↔ GroupFault used g e := by
  obtain ⟨signal, pins⟩ := g
  simp only [groupsFault?]
  constructor
  · intro h
    split_ifs at h with hw
    · cases hp : pinsFault? used pins with
      | none =>
        rw [hp] at h
        cases h
      | some e' =>
        rw [hp] at h
        cases h
        obtain ⟨earlier, pin, later, rfl, hu, ⟨hr, rfl⟩ | ⟨hr, hd, rfl⟩⟩ :=
          pinsFault?_eq_some_iff.mp hp
        · exact .outOfRange hw hu hr
        · exact .duplicate hw hu hr hd
    · cases h
      exact .width hw
  · intro h
    cases h with
    | width hw => rw [if_neg hw]
    | outOfRange hw hu hr =>
      rw [if_pos hw, pinsFault?_eq_some_iff.mpr ⟨_, _, _, rfl, hu, .inl ⟨hr, rfl⟩⟩]
    | duplicate hw hu hr hd =>
      rw [if_pos hw, pinsFault?_eq_some_iff.mpr ⟨_, _, _, rfl, hu, .inr ⟨hr, hd, rfl⟩⟩]

/-- The scan names the fault of the first group that has one. -/
theorem groupsFault?_eq_some_iff :
    groupsFault? used groups = some e ↔
      ∃ before g after, groups = before ++ g :: after ∧ groupsFault? used before = none ∧
        GroupFault (before.flatMap Prod.snd ++ used) g e := by
  induction groups generalizing used with
  | nil => simp [groupsFault?]
  | cons g groups ih =>
    have hmem (before : List PinGroup) (pin : Nat) :
        pin ∈ before.flatMap Prod.snd ++ (g.2 ++ used) ↔
          pin ∈ (g :: before).flatMap Prod.snd ++ used := by
      simp only [List.flatMap_cons, List.mem_append]
      tauto
    rw [groupsFault?_cons, Option.or_eq_some_iff, groupsFault?_singleton_eq_some_iff, ih]
    constructor
    · rintro (hg | ⟨hg, before, g', after, rfl, hbefore, hg'⟩)
      · exact ⟨[], g, groups, rfl, rfl, hg⟩
      · refine ⟨g :: before, g', after, rfl, ?_, hg'.congr (hmem before)⟩
        rw [groupsFault?_cons, hg]
        exact hbefore
    · rintro ⟨before, g', after, heq, hbefore, hg'⟩
      cases before with
      | nil =>
        cases heq
        exact .inl hg'
      | cons g before =>
        cases heq
        rw [groupsFault?_cons, Option.or_eq_none_iff] at hbefore
        exact .inr ⟨hbefore.1, before, g', after, rfl, hbefore.2,
          hg'.congr fun pin => (hmem before pin).symm⟩

/-- The missing signal that is named is the first of all signals to be missing. -/
theorem missing?_eq_some_iff {signal : Signal} :
    missing? groups = some signal ↔
      ∃ earlier later, Signal.all = earlier ++ signal :: later ∧
        (∀ s ∈ earlier, ∃ g ∈ groups, g.1 = s) ∧ ∀ g ∈ groups, g.1 ≠ signal := by
  unfold missing?
  rw [List.find?_eq_some_iff_append]
  simp only [Bool.not_eq_true', List.any_eq_false, List.any_eq_true, Bool.not_not, beq_iff_eq]
  constructor
  · rintro ⟨hno, earlier, later, heq, hall⟩
    exact ⟨earlier, later, heq, hall, hno⟩
  · rintro ⟨earlier, later, heq, hall, hno⟩
    exact ⟨hno, earlier, later, heq, hall⟩

/-- The fault that is named is the first. -/
theorem fault?_eq_some_iff : fault? groups = some e ↔ FirstFault groups e := by
  have hnone : groupsFault? [] groups = none ↔ Faultless groups := groupsFault?_nil_eq_none_iff
  have hsome (e' : WiringError) : groupsFault? [] groups = some e' ↔
      ∃ before g after, groups = before ++ g :: after ∧ groupsFault? [] before = none ∧
        GroupFault (before.flatMap Prod.snd ++ []) g e' := groupsFault?_eq_some_iff
  unfold fault?
  constructor
  · intro h
    cases hg : groupsFault? [] groups with
    | some e' =>
      rw [hg] at h
      cases h
      obtain ⟨before, g, after, rfl, hbefore, hfault⟩ := (hsome _).mp hg
      rw [List.append_nil] at hfault
      exact .group (groupsFault?_nil_eq_none_iff.mp hbefore) hfault
    | none =>
      rw [hg] at h
      obtain ⟨signal, hm, rfl⟩ := Option.map_eq_some_iff.mp h
      obtain ⟨earlier, later, heq, hall, hno⟩ := missing?_eq_some_iff.mp hm
      exact .missing (hnone.mp hg) heq hall hno
  · intro h
    cases h with
    | group hbefore hfault =>
      rw [(hsome _).mpr ⟨_, _, _, rfl, groupsFault?_nil_eq_none_iff.mpr hbefore, by
        rwa [List.append_nil]⟩]
    | missing hgroups heq hall hno =>
      rw [hnone.mpr hgroups]
      exact Option.map_eq_some_iff.mpr
        ⟨_, missing?_eq_some_iff.mpr ⟨_, _, heq, hall, hno⟩, rfl⟩

/-! ## A table and its pins -/

/-- A table has a highest pin, and no room beyond it. -/
theorem exists_pinCount_eq (t : PinTable) :
    ∃ highest ∈ t.groups.flatMap Prod.snd,
      (∀ pin ∈ t.groups.flatMap Prod.snd, pin ≤ highest) ∧ t.pinCount = highest + 1 := by
  have hall := (foldl_pinCount_le_iff.mp (Nat.le_refl t.pinCount)).2
  have hlink : 0 < (t.pins .link).length := by
    rw [length_pins]
    decide
  have hpos := lt_pinCount_of_mem (List.getElem_mem hlink)
  have hmax : ¬ t.pinCount ≤ t.pinCount - 1 := by omega
  have hexists : ∃ pin ∈ t.groups.flatMap Prod.snd, ¬ pin < t.pinCount - 1 := by
    by_contra hno
    push Not at hno
    exact hmax (foldl_pinCount_le_iff.mpr ⟨Nat.zero_le _, hno⟩)
  obtain ⟨highest, hmem, hge⟩ := hexists
  have hlt := hall highest hmem
  refine ⟨highest, hmem, ?_, by omega⟩
  intro pin hpin
  have := hall pin hpin
  omega

/-- Every signal is found in a table. -/
theorem pins?_eq_some (t : PinTable) (signal : Signal) :
    t.pins? signal = some (t.pins signal) := by
  have hfound : (t.groups.find? fun g => g.1 == signal).isSome := by
    obtain ⟨g, hg, rfl⟩ := t.isWiring.complete signal
    exact List.find?_isSome.mpr ⟨g, hg, beq_self_eq_true _⟩
  obtain ⟨g, hg⟩ := Option.isSome_iff_exists.mp hfound
  unfold pins pins?
  rw [hg]
  rfl

/-- A list of groups makes a table exactly when each group has the width of its signal, no pin is
out of range or used twice, and no signal is missing.  The table then has room for the highest pin
and no more, and gives every signal its pins, all of which there is room for.  Otherwise the first
fault is named. -/
theorem ofGroups_exact (groups : List PinGroup) :
    ((∃ t, ofGroups groups = .ok t) ↔
        (∀ g ∈ groups, g.2.length = g.1.width) ∧ (∀ g ∈ groups, ∀ pin ∈ g.2, pin ≤ maxPin) ∧
          (groups.flatMap Prod.snd).Nodup ∧ ∀ signal ∈ Signal.all, ∃ g ∈ groups, g.1 = signal) ∧
      (∀ t, ofGroups groups = .ok t →
        t.groups = groups ∧
          (∃ highest ∈ groups.flatMap Prod.snd,
            (∀ pin ∈ groups.flatMap Prod.snd, pin ≤ highest) ∧ t.pinCount = highest + 1) ∧
          ∀ signal, ∃ pins, t.pins? signal = some pins ∧ (signal, pins) ∈ groups ∧
            ∀ pin ∈ pins, pin < t.pinCount) ∧
      ∀ e, ofGroups groups = .error e ↔ FirstFault groups e := by
  refine ⟨?_, ?_, ?_⟩
  · constructor
    · rintro ⟨t, h⟩
      obtain rfl := (ofGroups_eq_ok_iff _ _).mp h
      exact ⟨t.isWiring.width, t.isWiring.inRange, t.isWiring.nodup,
        fun signal _ => t.isWiring.complete signal⟩
    · rintro ⟨hw, hr, hn, hc⟩
      exact ⟨⟨groups, hw, hr, hn, fun signal => hc signal signal.mem_all⟩,
        (ofGroups_eq_ok_iff _ _).mpr rfl⟩
  · intro t h
    obtain rfl := (ofGroups_eq_ok_iff _ _).mp h
    exact ⟨rfl, t.exists_pinCount_eq, fun signal =>
      ⟨t.pins signal, t.pins?_eq_some signal, t.pins_mem signal, fun _ => lt_pinCount_of_mem⟩⟩
  · intro e
    rw [ofGroups_eq_error_iff, fault?_eq_some_iff]

end PinTable

end Pdp8
