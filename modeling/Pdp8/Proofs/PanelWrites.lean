import Mathlib.Tactic.SplitIfs
import Pdp8.Operator
import Pdp8.Proofs.Wiring

/-!
# Pdp8.Proofs.PanelWrites — what a setting of one signal does

Every setting is a complete write of the pins.  As long as the keys and the STEP switch are off
(`AtRest`), a switch reaches the machine with the write that sets it, a key that is pressed is the
only one to have gone down, and one that is let go of does nothing.
-/

namespace Pdp8

/-- The keys and the STEP switch: what has to be off for the machine to be left alone. -/
def Signal.acts : Signal → Bool
  | .stepSwitch => true
  | .deposit => true
  | .examine => true
  | .loadAddress => true
  | .continueKey => true
  | .start => true
  | .stop => true
  | _ => false

/-- The keys, which act when they go down. -/
def Signal.isKey : Signal → Bool
  | .deposit => true
  | .examine => true
  | .loadAddress => true
  | .continueKey => true
  | .start => true
  | .stop => true
  | _ => false

theorem Signal.acts_of_isKey {s : Signal} (h : s.isKey = true) : s.acts = true := by
  cases s <;> first | rfl | cases h

theorem Signal.width_of_isKey {s : Signal} (h : s.isKey = true) : s.width = 1 := by
  cases s <;> first | rfl | cases h

/-- One key alone. -/
def Keys.only (key : Signal) : Keys where
  deposit := key == .deposit
  examine := key == .examine
  loadAddress := key == .loadAddress
  continueKey := key == .continueKey
  start := key == .start
  stop := key == .stop

/-! ## Keys -/

namespace Panel

variable {t : PinTable} {before after : PinVector} {key : Signal}

/-- All keys are up. -/
def Released (t : PinTable) (v : PinVector) : Prop :=
  ∀ s : Signal, s.isKey = true → t.gather s v = 0

/-- One key is down, and no other. -/
def Held (t : PinTable) (key : Signal) (v : PinVector) : Prop :=
  ∀ s : Signal, s.isKey = true → (t.gather s v ≠ 0 ↔ s = key)

/-- Keys that are up have not gone down. -/
theorem keys_of_released (h : Released t after) : keys t before after = .none := by
  have hup (s : Signal) (hs : s.isKey = true) : wentDown t before after s = false := by
    unfold wentDown
    rw [h s hs]
    exact Bool.and_false _
  unfold keys Keys.none
  rw [hup .deposit rfl, hup .examine rfl, hup .loadAddress rfl, hup .continueKey rfl,
    hup .start rfl, hup .stop rfl]

/-- The key that is down now, and was not before, is the one that has gone down. -/
theorem keys_of_held (h : Released t before) (h' : Held t key after) :
    keys t before after = .only key := by
  have hdown (s : Signal) (hs : s.isKey = true) : wentDown t before after s = (key == s) := by
    unfold wentDown
    by_cases he : s = key
    · rw [h s hs, bne_iff_ne.mpr ((h' s hs).mpr he), he, beq_self_eq_true, beq_self_eq_true]
      rfl
    · have hstays : t.gather s after = 0 := of_not_not (mt (h' s hs).mp he)
      rw [hstays, beq_false_of_ne (Ne.symm he)]
      exact Bool.and_false _
  unfold keys Keys.only
  rw [hdown .deposit rfl, hdown .examine rfl, hdown .loadAddress rfl, hdown .continueKey rfl,
    hdown .start rfl, hdown .stop rfl]

/-- A key that goes down on pins on which all are up. -/
theorem held_spread (h : Released t before) : Held t key (t.spread key 1 before) := by
  intro s hs
  by_cases he : s = key
  · subst he
    rw [PinTable.gather_spread, Signal.width_of_isKey hs]
    exact ⟨fun _ => rfl, fun _ => Nat.one_ne_zero⟩
  · rw [PinTable.gather_spread_of_ne he, h s hs]
    exact ⟨fun h => absurd rfl h, fun h => absurd h he⟩

theorem released_of_up (h : ∀ s : Signal, s.acts = true → t.gather s after = 0) :
    Released t after :=
  fun s hs => h s (Signal.acts_of_isKey hs)

/-- A key that is pressed while everything else is off. -/
theorem pressed_alone (hkey : key.acts = true) (hswitch : key ≠ .stepSwitch) (t : PinTable) :
    let v := t.spread key 1 (.off t.pinCount)
    keys t (.off t.pinCount) v = .only key ∧ switches t v = .off := by
  intro v
  have hoff (s : Signal) (hs : s ≠ key) : t.gather s v = 0 :=
    (PinTable.gather_spread_of_ne hs _ _).trans (PinTable.gather_off _ _ _)
  have hother (s : Signal) (hs : s.acts = false) : t.gather s v = 0 := by
    refine hoff s ?_
    rintro rfl
    rw [hkey] at hs
    cases hs
  have hup : Released t (.off t.pinCount) := fun s _ => PinTable.gather_off _ s _
  refine ⟨keys_of_held hup (held_spread hup), ?_⟩
  unfold switches
  rw [hother .switchRegister rfl, hoff .stepSwitch hswitch.symm, hother .instField rfl,
    hother .dataField rfl, hother .memProtect rfl]
  rfl

end Panel

/-! ## Writes -/

namespace Machine

/-- The machine with the pins and the switches of a write. -/
def withPins (v : PinVector) (m : Machine) : Machine :=
  { m with
    panel := { m.panel with written := v }
    switches := Panel.switches m.panel.table v
    processor :=
      { m.processor with regs.sr := (Panel.switches m.panel.table v).switchRegister } }

variable {m : Machine} {v : PinVector} {keys : Keys}

/-- A write that does not stop the machine. -/
theorem acceptPins_eq (hkeys : Panel.keys m.panel.table m.panel.written v = keys)
    (hstop : (m.running && (keys.stop || (Panel.switches m.panel.table v).step)) = false) :
    m.acceptPins v = (⟨keys, false⟩, m.withPins v) := by
  unfold acceptPins Panel.accept
  dsimp only
  rw [hkeys, hstop]
  rfl

theorem pressKeys_none (hrun : m.running = false) : m.pressKeys .none = .ok (false, m) := by
  unfold pressKeys
  rw [hrun]
  rfl

theorem pressKeys_of_running (hrun : m.running = true) : m.pressKeys keys = .ok (false, m) := by
  unfold pressKeys
  rw [hrun]
  rfl

theorem pressKeys_loadAddress (hrun : m.running = false) :
    m.pressKeys (.only .loadAddress) = .ok (false, m.pressLoadAddress) := by
  unfold pressKeys
  rw [hrun]
  rfl

theorem pressKeys_deposit (hrun : m.running = false) :
    m.pressKeys (.only .deposit) = .ok (false, m.pressDeposit) := by
  unfold pressKeys
  rw [hrun]
  rfl

/-- The machine once START has been pressed. -/
def started (m : Machine) : Machine :=
  { { m.pressStart with halted := false }.report .running with running := true }

theorem pressKeys_start (hrun : m.running = false) (hstep : m.switches.step = false) :
    m.pressKeys (.only .start) = .ok (true, m.started) := by
  have hstep' : m.pressStart.switches.step = false := hstep
  unfold pressKeys resume
  rw [hrun]
  simp [Keys.only, hstep', started]

end Machine

namespace Operator

/-- The value of a signal as the operator holds the pins. -/
def setting (s : Signal) (op : Operator) : Nat :=
  op.runner.machine.panel.table.gather s op.pins

/-- The machine is stopped, nobody runs it, and the operator's hands are off the keys. -/
structure AtRest (op : Operator) : Prop where
  written : op.runner.machine.panel.written = op.pins
  up : ∀ s : Signal, s.acts = true → op.setting s = 0
  running : op.runner.machine.running = false
  awaited : op.runner.awaited = none

variable {op op' : Operator}

theorem atRest_ofRunner {setup : Setup} {table : PinTable} {keyboard : Keyboard} {sink : Sink}
    {clock : Clock} : AtRest (ofRunner (.powerUp setup table keyboard sink clock)) :=
  ⟨rfl, fun s _ => PinTable.gather_off _ s _, rfl, rfl⟩

theorem press_eq {r : Runner} {keys : Keys} {start : Bool} {m : Machine}
    (h : r.machine.pressKeys keys = .ok (start, m)) :
    r.press keys = .ok (start, { r with machine := m }) := by
  unfold Runner.press
  rw [h]

section Writes

variable {keys : Keys} {m : Machine}
variable (hkeys : Panel.keys op.runner.machine.panel.table op.runner.machine.panel.written op.pins =
  keys)
variable (hstop : (op.runner.machine.running &&
  (keys.stop || (Panel.switches op.runner.machine.panel.table op.pins).step)) = false)

include hkeys hstop

/-- A write after which nobody is to run the machine. -/
theorem write_eq (hpress : (op.runner.machine.withPins op.pins).pressKeys keys = .ok (false, m)) :
    op.write = .ok { op with runner.machine := m } := by
  have haccept := Machine.acceptPins_eq hkeys hstop
  have hpress' := press_eq (r := { op.runner with machine := op.runner.machine.withPins op.pins })
    hpress
  unfold write Runner.writePins Runner.accept
  simp [haccept, hpress', Bind.bind, Except.bind, Pure.pure, Except.pure]

/-- A write that starts the machine spawns a worker. -/
theorem write_eq_spawn (hawaited : op.runner.awaited = none)
    (hpress : (op.runner.machine.withPins op.pins).pressKeys keys = .ok (true, m)) :
    op.write = .ok { op with runner := { op.runner with machine := m }.spawn } := by
  have haccept := Machine.acceptPins_eq hkeys hstop
  have hpress' := press_eq (r := { op.runner with machine := op.runner.machine.withPins op.pins })
    hpress
  have hjoin : ({ op.runner with machine := m } : Runner).join Runner.leavingTurns =
      .ok { op.runner with machine := m } := by
    unfold Runner.join Runner.leavingTurns Runner.work Runner.mustWait Runner.dismiss
    simp [hawaited]
  unfold write Runner.writePins Runner.accept
  simp [haccept, hpress', hjoin, Bind.bind, Except.bind, Pure.pure, Except.pure]

end Writes

theorem apply_append {l l' : List Setting} (h : op.apply l = .ok op') :
    op.apply (l ++ l') = op'.apply l' := by
  induction l generalizing op with
  | nil =>
    cases h
    rfl
  | cons s l ih =>
    unfold apply at h
    rw [List.cons_append]
    conv_lhs => unfold apply
    cases hw : (op.hold s).write with
    | error f =>
      rw [hw] at h
      cases h
    | ok op₁ =>
      rw [hw] at h
      exact ih h

theorem apply_singleton {s : Setting} (h : (op.hold s).write = .ok op') :
    op.apply [s] = .ok op' := by
  unfold apply
  rw [h]
  rfl

/-! ## Settings -/

theorem setting_hold (s s' : Signal) (value : Nat) (op : Operator) :
    (op.hold (s, value)).setting s' = if s' = s then value % 2 ^ s.width else op.setting s' := by
  unfold setting hold
  by_cases h : s' = s
  · subst h
    rw [if_pos rfl, PinTable.gather_spread]
  · rw [if_neg h, PinTable.gather_spread_of_ne h]

/-- A key that is pressed at rest goes down alone. -/
theorem AtRest.keys_hold (h : op.AtRest) (key : Signal) :
    Panel.keys op.runner.machine.panel.table op.runner.machine.panel.written
      (op.hold (key, 1)).pins = .only key := by
  rw [h.written]
  have hup := Panel.released_of_up h.up
  exact Panel.keys_of_held hup (Panel.held_spread hup)

/-- A machine at rest cannot be stopped. -/
theorem AtRest.not_stopping (h : op.AtRest) (keys : Keys) (v : PinVector) :
    (op.runner.machine.running &&
      (keys.stop || (Panel.switches op.runner.machine.panel.table v).step)) = false := by
  rw [h.running, Bool.false_and]

/-- Setting a switch changes nothing but what the switch says. -/
theorem AtRest.apply_switch (h : op.AtRest) (s : Signal) (hs : s.acts = false) (value : Nat) :
    ∃ op', op.apply [(s, value)] = .ok op' ∧ op'.AtRest ∧
      (∀ s', op'.setting s' = if s' = s then value % 2 ^ s.width else op.setting s') ∧
      op'.runner.machine = op.runner.machine.withPins op'.pins := by
  have hup (s' : Signal) (hs' : s'.acts = true) : (op.hold (s, value)).setting s' = 0 := by
    rw [setting_hold, if_neg, h.up s' hs']
    rintro rfl
    rw [hs] at hs'
    cases hs'
  have hwrite : (op.hold (s, value)).write = _ :=
    write_eq (Panel.keys_of_released (Panel.released_of_up hup)) (h.not_stopping .none _)
      (Machine.pressKeys_none h.running)
  refine ⟨_, apply_singleton hwrite, ⟨rfl, hup, h.running, h.awaited⟩, ?_, rfl⟩
  intro s'
  exact setting_hold s s' value op

section Press

variable {key : Signal}

/-- The pins with a key let go of again. -/
theorem setting_released (hkey : op.setting key = 0) (op₁ : Operator)
    (htable : op₁.runner.machine.panel.table = op.runner.machine.panel.table)
    (hpins : op₁.pins = (op.hold (key, 1)).pins) (s : Signal) :
    (op₁.hold (key, 0)).setting s = op.setting s := by
  rw [setting_hold]
  by_cases hs : s = key
  · rw [if_pos hs, hs, hkey]
    exact Nat.zero_mod _
  · have h := setting_hold key s 1 op
    rw [if_neg hs] at h ⊢
    rw [← h]
    unfold setting
    rw [htable, hpins]
    rfl

/-- Letting go of a key does nothing. -/
theorem write_released (hup : ∀ s : Signal, s.acts = true → op.setting s = 0) :
    op.write = .ok { op with runner.machine := op.runner.machine.withPins op.pins } := by
  have hstep : (Panel.switches op.runner.machine.panel.table op.pins).step = false := by
    unfold Panel.switches
    dsimp only
    rw [show op.runner.machine.panel.table.gather .stepSwitch op.pins = 0 from hup .stepSwitch rfl]
    rfl
  refine write_eq (Panel.keys_of_released (Panel.released_of_up hup)) ?_ ?_
  · rw [hstep]
    exact Bool.and_false _
  · cases hrun : (op.runner.machine.withPins op.pins).running with
    | true => exact Machine.pressKeys_of_running hrun
    | false => exact Machine.pressKeys_none hrun

/-- Pressing a key and letting go of it does what the key does, once. -/
theorem AtRest.apply_press (h : op.AtRest) (key : Signal) (hkey : key.acts = true)
    (f : Machine → Machine)
    (hf : ∀ m : Machine, m.running = false → m.pressKeys (.only key) = .ok (false, f m))
    (hpanel : ∀ m, (f m).panel = m.panel) (hrunning : ∀ m, (f m).running = m.running) :
    ∃ op' v, op.apply (Setting.press key) = .ok op' ∧ op'.AtRest ∧
      (∀ s, op'.setting s = op.setting s) ∧
      (∀ s, s ≠ key → op.runner.machine.panel.table.gather s v = op.setting s) ∧
      op'.runner.machine = (f (op.runner.machine.withPins v)).withPins op'.pins := by
  let v := (op.hold (key, 1)).pins
  let op₁ : Operator :=
    { op.hold (key, 1) with runner.machine := f (op.runner.machine.withPins v) }
  have hpressed : (op.hold (key, 1)).write = .ok op₁ :=
    write_eq (h.keys_hold key) (h.not_stopping _ _) (hf _ h.running)
  have htable : op₁.runner.machine.panel.table = op.runner.machine.panel.table := by
    show (f (op.runner.machine.withPins v)).panel.table = _
    rw [hpanel]
    rfl
  have hsetting := setting_released (h.up key hkey) op₁ htable rfl
  have hup (s : Signal) (hs : s.acts = true) : (op₁.hold (key, 0)).setting s = 0 :=
    (hsetting s).trans (h.up s hs)
  let op₂ : Operator :=
    { op₁.hold (key, 0) with
      runner.machine := op₁.runner.machine.withPins (op₁.hold (key, 0)).pins }
  have hreleased : (op₁.hold (key, 0)).write = .ok op₂ := write_released hup
  refine ⟨op₂, v, ?_, ⟨rfl, ?_, ?_, h.awaited⟩, ?_, ?_, rfl⟩
  · unfold Setting.press apply
    rw [hpressed]
    exact apply_singleton hreleased
  · exact hup
  · exact (hrunning _).trans h.running
  · exact hsetting
  · intro s hs
    exact (setting_hold key s 1 op).trans (if_neg hs)

/-- START sets the machine going when it is pressed, and letting go of it does nothing. -/
theorem AtRest.apply_start (h : op.AtRest) :
    ∃ op₁ op₂ v, op.apply [(.start, 1)] = .ok op₁ ∧ op₁.apply [(.start, 0)] = .ok op₂ ∧
      (∀ s, s ≠ .start → op.runner.machine.panel.table.gather s v = op.setting s) ∧
      op₁.runner.machine = (op.runner.machine.withPins v).started ∧
      op₂.runner.machine = op₁.runner.machine.withPins op₂.pins := by
  let v := (op.hold (.start, 1)).pins
  have hothers (s : Signal) (hs : s ≠ .start) :
      op.runner.machine.panel.table.gather s v = op.setting s :=
    (setting_hold .start s 1 op).trans (if_neg hs)
  have hstep : (op.runner.machine.withPins v).switches.step = false := by
    have hoff := (hothers .stepSwitch nofun).trans (h.up .stepSwitch rfl)
    show (op.runner.machine.panel.table.gather .stepSwitch v != 0) = false
    rw [hoff]
    rfl
  let op₁ : Operator :=
    { op.hold (.start, 1) with
      runner := { op.runner with machine := (op.runner.machine.withPins v).started }.spawn }
  have hpressed : (op.hold (.start, 1)).write = .ok op₁ :=
    write_eq_spawn (h.keys_hold .start) (h.not_stopping _ _) h.awaited
      (Machine.pressKeys_start h.running hstep)
  have hup (s : Signal) (hs : s.acts = true) : (op₁.hold (.start, 0)).setting s = 0 :=
    (setting_released (h.up .start rfl) op₁ rfl rfl s).trans (h.up s hs)
  let op₂ : Operator :=
    { op₁.hold (.start, 0) with
      runner.machine := op₁.runner.machine.withPins (op₁.hold (.start, 0)).pins }
  have hreleased : (op₁.hold (.start, 0)).write = .ok op₂ := write_released hup
  exact ⟨op₁, op₂, v, apply_singleton hpressed, apply_singleton hreleased, hothers, rfl, rfl⟩

end Press

end Operator

end Pdp8
