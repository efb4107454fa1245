import Pdp8.Proofs.Interrupts
import Pdp8.Proofs.PanelWrites
import Pdp8.Proofs.SwitchRegister

/-!
# Pdp8.Proofs.Reachable — the machines that there can be

`Reachable` machines are those that a newly built one becomes in any hands: it may be stepped,
written to, stopped and asked for an interrupt in any order, the keys of a write may act at any
later time, and meanwhile the teletype and the clock do as they like.  All that is needed of them
is that their processors are sound, and that none is running and halted at once.
-/

namespace Pdp8

/-- The switches have nothing to do with the state a processor is in. -/
theorem Processor.Twin.sound {sr : Word} {p q : Processor} (h : Twin sr p q) (hp : p.Sound) :
    q.Sound := by
  obtain ⟨log, rfl⟩ := h
  exact ⟨hp.coherent, hp.released⟩

namespace Machine

/-- The machines that a newly built one can become. -/
inductive Reachable : Machine → Prop
  | powerUp (setup : Setup) (table : PinTable) (tty : Teletype) (clock : Clock) :
    Reachable (powerUp setup table tty clock)
  | step {m m' : Machine} {o : Outcome} : Reachable m → m.step = .ok (o, m') → Reachable m'
  | acceptPins {m : Machine} (v : PinVector) : Reachable m → Reachable (m.acceptPins v).2
  | pressKeys {m m' : Machine} {keys : Keys} {start : Bool} :
    Reachable m → m.pressKeys keys = .ok (start, m') → Reachable m'
  | stop {m : Machine} : Reachable m → Reachable m.stop
  | requestInterrupt {m : Machine} : Reachable m → Reachable m.requestInterrupt
  | onTeletype {m : Machine} (f : Teletype → Teletype) : Reachable m → Reachable (m.onTeletype f)
  | advance {m : Machine} (interval : Time) : Reachable m → Reachable (m.advance interval)
  | report {m : Machine} (event : Event) : Reachable m → Reachable (m.report event)
  | collect {m : Machine} : Reachable m → Reachable m.collect.2

/-! ## What an operation comes to -/

/-- The machine after a step of its processor. -/
def stepped (o : Outcome) (p : Processor) (m : Machine) : Machine :=
  match o with
  | .proceed => { m with processor := p, clock := m.clock.read.2 }
  | .halted =>
    { m with processor := p, clock := m.clock.read.2, running := false, halted := true }

/-- The machine once the keys that went down have acted, but for going on. -/
def pressed (keys : Keys) (m : Machine) : Machine :=
  let m := if keys.loadAddress then m.pressLoadAddress else m
  let m := if keys.deposit then m.pressDeposit else m
  let m := if keys.examine then m.pressExamine else m
  if keys.start then m.pressStart else m

variable {m m' : Machine} {v : PinVector} {keys : Keys} {p : Processor} {o : Outcome} {start : Bool}

theorem step_of_halted (h : m.halted = true) : m.step = .ok (.halted, m) := by
  unfold step
  rw [h]
  rfl

theorem step_of_not_halted (h : m.halted = false) :
    m.step =
      match m.processor.step m.clock.now with
      | .error f => .error f
      | .ok (o, p) => .ok (o, m.stepped o p) := by
  unfold step
  rw [if_neg (Bool.eq_false_iff.mp h)]
  dsimp only [Clock.read]
  cases m.processor.step m.clock.now with
  | error f => rfl
  | ok r =>
    obtain ⟨o, p⟩ := r
    cases o <;> rfl

@[simp] theorem processor_stepped (o : Outcome) : (m.stepped o p).processor = p := by
  cases o <;> rfl

/-- A step of a machine that is not halted is one of its processor. -/
theorem exists_of_step (hhalted : m.halted = false) (h : m.step = .ok (o, m')) :
    ∃ p, m.processor.step m.clock.now = .ok (o, p) ∧ m' = m.stepped o p := by
  rw [step_of_not_halted hhalted] at h
  cases hp : m.processor.step m.clock.now with
  | error f =>
    rw [hp] at h
    cases h
  | ok r =>
    obtain ⟨o', p⟩ := r
    rw [hp] at h
    cases h
    exact ⟨p, rfl, rfl⟩

/-- What a write of the pins does before the keys act. -/
theorem acceptPins_same (v : PinVector) (m : Machine) :
    let write := (m.acceptPins v).1
    let accepted := (m.acceptPins v).2
    accepted.running = (m.running && !write.stopRequested) ∧ accepted.halted = m.halted ∧
      accepted.clock = m.clock ∧ accepted.switches = Panel.switches m.panel.table v ∧
      accepted.panel = { m.panel with written := v } ∧
      Processor.Twin (Panel.switches m.panel.table v).switchRegister m.processor
        accepted.processor := by
  intro write accepted
  have haccepted : accepted = if write.stopRequested then (m.withPins v).stop else m.withPins v :=
    rfl
  cases hstop : write.stopRequested with
  | false =>
    rw [haccepted, hstop, Bool.not_false, Bool.and_true]
    exact ⟨rfl, rfl, rfl, rfl, rfl, _, rfl⟩
  | true =>
    have hrunning : m.running = true := (Bool.and_eq_true_iff.mp hstop).1
    have hstopped : (m.withPins v).stop = { (m.withPins v).report .stopping with running := false } :=
      if_pos hrunning
    rw [haccepted, hstop, Bool.not_true, Bool.and_false, if_pos rfl, hstopped]
    exact ⟨rfl, rfl, rfl, rfl, rfl, _, rfl⟩

theorem pressKeys_of_stopped (h : m.running = false) :
    m.pressKeys keys =
      if keys.start || keys.continueKey then (m.pressed keys).resume
      else .ok (false, m.pressed keys) := by
  unfold pressKeys
  rw [if_neg (Bool.eq_false_iff.mp h)]
  rfl

/-- CONTINUE alone makes a machine run on from where it is. -/
theorem pressKeys_continue (hrun : m.running = false) (hswitch : m.switches.step = false) :
    m.pressKeys (.only .continueKey) =
      .ok (true, { { m with halted := false }.report .running with running := true }) := by
  have hresume : m.resume =
      .ok (true, { { m with halted := false }.report .running with running := true }) := by
    unfold resume
    dsimp only
    rw [hswitch]
    rfl
  rw [pressKeys_of_stopped hrun]
  exact hresume

/-! ## What they all have in common -/

/-- The processor can be stepped, and the machine is not running and halted at once. -/
structure Sound (m : Machine) : Prop where
  processor : m.processor.Sound
  halted : m.running = true → m.halted = false

theorem Sound.step (h : m.Sound) (hs : m.step = .ok (o, m')) : m'.Sound := by
  cases hhalted : m.halted with
  | true =>
    rw [step_of_halted hhalted] at hs
    cases hs
    exact h
  | false =>
    obtain ⟨p, hp, rfl⟩ := exists_of_step hhalted hs
    have hsound : p.Sound := (Processor.step_cases h.processor hp).1
    cases o with
    | proceed => exact ⟨hsound, h.halted⟩
    | halted => exact ⟨hsound, nofun⟩

theorem Sound.acceptPins (h : m.Sound) (v : PinVector) : (m.acceptPins v).2.Sound := by
  obtain ⟨hrunning, hhalted, -, -, -, htwin⟩ := acceptPins_same v m
  refine ⟨htwin.sound h.processor, ?_⟩
  intro hrun
  rw [hrunning, Bool.and_eq_true] at hrun
  rw [hhalted]
  exact h.halted hrun.1

/-- What each key preserves, all of them together do. -/
theorem pressed_induction {P : Machine → Prop} (keys : Keys) (hm : P m)
    (hload : ∀ {m}, P m → P (pressLoadAddress m)) (hdeposit : ∀ {m}, P m → P (pressDeposit m))
    (hexamine : ∀ {m}, P m → P (pressExamine m)) (hstart : ∀ {m}, P m → P (pressStart m)) :
    P (m.pressed keys) := by
  have hkey (pressed : Bool) {f : Machine → Machine} (hf : ∀ {m}, P m → P (f m)) {m : Machine}
      (h : P m) : P (if pressed then f m else m) := by
    cases pressed with
    | true => exact hf h
    | false => exact h
  unfold pressed
  exact hkey _ hstart (hkey _ hexamine (hkey _ hdeposit (hkey _ hload hm)))

/-- The keys that act at once bring the processor back to the idle state. -/
theorem sound_pressed (keys : Keys) (h : m.Sound) (hrun : m.running = false) :
    (m.pressed keys).Sound ∧ (m.pressed keys).running = false := by
  have hidle {m' : Machine} (hcycle : m'.processor.cycle = .idle) (hrun' : m'.running = false) :
      m'.Sound ∧ m'.running = false := by
    refine ⟨⟨Processor.sound_of_atBoundary ?_, ?_⟩, hrun'⟩
    · unfold Processor.atBoundary
      rw [hcycle]
    · intro hgoes
      rw [hrun'] at hgoes
      cases hgoes
  refine pressed_induction (P := fun m => m.Sound ∧ m.running = false) keys ⟨h, hrun⟩ ?_ ?_ ?_ ?_
  · exact fun h => hidle rfl h.2
  · exact fun h => hidle rfl h.2
  · exact fun h => hidle rfl h.2
  · exact fun h => hidle rfl h.2

theorem running_stop (m : Machine) : m.stop.running = false := by
  unfold stop
  cases hrun : m.running with
  | true => rfl
  | false => exact hrun

/-- A step starts nothing. -/
theorem running_of_step (hrun : m.running = false) (h : m.step = .ok (o, m')) :
    m'.running = false := by
  cases hhalted : m.halted with
  | true =>
    rw [step_of_halted hhalted] at h
    cases h
    exact hrun
  | false =>
    obtain ⟨p, -, rfl⟩ := exists_of_step hhalted h
    cases o with
    | proceed => exact hrun
    | halted => rfl

/-- Going on asks for a worker exactly if it has started the machine. -/
theorem running_of_resume (hrun : m.running = false) (h : m.resume = .ok (start, m')) :
    m'.running = start := by
  have hcleared : Machine.running { m with halted := false } = false := hrun
  unfold resume at h
  dsimp only at h
  split_ifs at h
  · cases hs : step { m with halted := false } with
    | error f =>
      rw [hs] at h
      cases h
    | ok r =>
      obtain ⟨o, m₁⟩ := r
      rw [hs] at h
      cases h
      exact running_of_step hcleared hs
  · cases h
    rfl

/-- So do the keys, and only START and CONTINUE do. -/
theorem running_of_pressKeys (hm : m.Sound) (hrun : m.running = false)
    (h : m.pressKeys keys = .ok (start, m')) :
    m'.running = start ∧ (start = true → keys.start = true ∨ keys.continueKey = true) := by
  have hpressed := (sound_pressed keys hm hrun).2
  rw [pressKeys_of_stopped hrun] at h
  split_ifs at h with hkeys
  · exact ⟨running_of_resume hpressed h, fun _ => (Bool.or_eq_true _ _).mp hkeys⟩
  · cases h
    exact ⟨hpressed, nofun⟩

theorem Sound.resume (h : m.Sound) (hr : m.resume = .ok (start, m')) : m'.Sound := by
  have hcleared : Sound { m with halted := false } := ⟨h.processor, fun _ => rfl⟩
  unfold Machine.resume at hr
  dsimp only at hr
  split_ifs at hr
  · cases hs : Machine.step { m with halted := false } with
    | error f =>
      rw [hs] at hr
      cases hr
    | ok r =>
      obtain ⟨o, m₁⟩ := r
      rw [hs] at hr
      cases hr
      exact hcleared.step hs
  · cases hr
    exact ⟨⟨h.processor.coherent, h.processor.released⟩, fun _ => rfl⟩

theorem Sound.pressKeys (h : m.Sound) (hk : m.pressKeys keys = .ok (start, m')) : m'.Sound := by
  cases hrun : m.running with
  | true =>
    rw [pressKeys_of_running hrun] at hk
    cases hk
    exact h
  | false =>
    have hpressed := (sound_pressed keys h hrun).1
    rw [pressKeys_of_stopped hrun] at hk
    split_ifs at hk
    · exact hpressed.resume hk
    · cases hk
      exact hpressed

theorem Reachable.sound (h : m.Reachable) : m.Sound := by
  induction h with
  | powerUp setup table tty clock => exact ⟨Processor.sound_of_atBoundary rfl, nofun⟩
  | step _ hs ih => exact ih.step hs
  | acceptPins v _ ih => exact ih.acceptPins v
  | pressKeys _ hk ih => exact ih.pressKeys hk
  | @stop m _ ih =>
    unfold Machine.stop
    split
    · exact ⟨⟨ih.processor.coherent, ih.processor.released⟩, nofun⟩
    · exact ih
  | requestInterrupt _ ih => exact ⟨⟨ih.processor.coherent, ih.processor.released⟩, ih.halted⟩
  | onTeletype f _ ih => exact ⟨⟨ih.processor.coherent, ih.processor.released⟩, ih.halted⟩
  | advance interval _ ih => exact ⟨ih.processor, ih.halted⟩
  | report event _ ih => exact ⟨⟨ih.processor.coherent, ih.processor.released⟩, ih.halted⟩
  | collect _ ih => exact ⟨⟨ih.processor.coherent, ih.processor.released⟩, ih.halted⟩

end Machine

end Pdp8
