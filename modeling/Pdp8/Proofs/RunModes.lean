import Pdp8.Proofs.Operations

/-!
# Pdp8.Proofs.RunModes — running, stopped, halted

A machine that runs has its STEP switch off, and is not halted.  It is halted by an HLT, whoever
makes it take the step that executes one, and remains so until START or CONTINUE goes down while it
is not running.  Meanwhile its steps do nothing at all, and all that a request for an interrupt does
is to be remembered.
-/

namespace Pdp8

/-! ## HLT -/

namespace Processor

variable {p q : Processor} {now : Time} {o : Outcome}

/-- The next step executes an HLT: it is a fetch, no interrupt takes its place, and the word has the
bit. -/
def ExecutesHlt (now : Time) (p : Processor) : Prop :=
  p.atBoundary = true ∧ ¬ p.Acknowledges now ∧
    ∃ g, Instruction.decode p.nextWord = .operate (.group2 g) ∧ g.hlt = true

theorem operate2_halts (g : Group2) (p : Processor) :
    (p.operate2 g).1 = .halted ↔ g.hlt = true := by
  unfold operate2
  cases g.hlt with
  | true => exact ⟨fun _ => rfl, fun _ => rfl⟩
  | false => exact ⟨nofun, nofun⟩

/-- Of the instructions that are completed in their fetch cycle only those with HLT halt. -/
theorem beginInstruction_halts :
    p.beginInstruction.1 = .halted ↔ ∃ g, p.current = .operate (.group2 g) ∧ g.hlt = true := by
  unfold beginInstruction
  cases p.current with
  | memory op operand => exact ⟨nofun, nofun⟩
  | jump operand =>
    dsimp only
    split_ifs
    · exact ⟨nofun, nofun⟩
    · exact ⟨nofun, nofun⟩
  | iot code => exact ⟨nofun, nofun⟩
  | operate op =>
    cases op with
    | group1 g => exact ⟨nofun, nofun⟩
    | undefined word => exact ⟨nofun, nofun⟩
    | group2 g =>
      refine (operate2_halts g p).trans ⟨fun h => ⟨g, rfl, h⟩, ?_⟩
      rintro ⟨_, ⟨⟩, h⟩
      exact h

/-- A step halts exactly if it executes an HLT. -/
theorem step_halts (hp : p.Coherent) (hs : p.step now = .ok (o, q)) :
    o = .halted ↔ p.ExecutesHlt now := by
  cases hb : p.atBoundary with
  | true =>
    have hf := hs
    rw [step_of_atBoundary hb, fetch_eq_ok_iff] at hf
    obtain ⟨polled, hpoll, ⟨hw, rfl, rfl⟩ | ⟨hw, he⟩⟩ := hf
    · have hack := (acknowledges_iff_of_poll hb hpoll).mpr hw
      exact ⟨nofun, fun h => absurd hack h.2.1⟩
    · have hack : ¬ p.Acknowledges now := by
        rw [acknowledges_iff_of_poll hb hpoll, hw]
        exact Bool.false_ne_true
      have ho : o = polled.loadInstruction.beginInstruction.1 := congrArg Prod.fst he
      rw [ho, beginInstruction_halts, current_loadInstruction, nextWord_of_poll hpoll]
      exact ⟨fun hg => ⟨hb, hack, hg⟩, fun h => h.2.2⟩
  | false =>
    have ho : o = .proceed := by
      rcases step_off_boundary hp hb now with ⟨_, _, _, _, hs'⟩ | ⟨_, _, _, _, hs'⟩
      · rw [hs] at hs'
        cases hs'
        rfl
      · rw [hs] at hs'
        cases hs'
        rfl
    rw [ho]
    refine ⟨nofun, ?_⟩
    intro h
    rw [h.1] at hb
    cases hb

end Processor

/-! ## The latch -/

namespace Machine

variable {m m' : Machine} {op : Operation} {ops : List Operation} {v : PinVector} {keys : Keys}
  {o : Outcome} {p : Processor} {start : Bool} {setup : Setup} {t : PinTable} {tty : Teletype}
  {clock : Clock}

/-- An operation lets the machine go on: a write in which START or CONTINUE goes down, and which
finds the machine stopped, or stops it. -/
def Restarts (m : Machine) : Operation → Prop
  | .action (.write v) =>
    (m.running = false ∨ (m.acceptPins v).1.stopRequested = true) ∧
      (Panel.wentDown m.panel.table m.panel.written v .start = true ∨
        Panel.wentDown m.panel.table m.panel.written v .continueKey = true)
  | _ => False

/-- An operation makes the machine execute an HLT: a step, or a write with STEP on that lets it go
on, once the other keys have acted. -/
def ExecutesHlt (m : Machine) : Operation → Prop
  | .action .step => m.halted = false ∧ m.processor.ExecutesHlt m.clock.now
  | .action (.write v) =>
    m.Restarts (.action (.write v)) ∧ (Panel.switches m.panel.table v).step = true ∧
      ((m.acceptPins v).2.pressed (m.acceptPins v).1.keys).processor.ExecutesHlt m.clock.now
  | _ => False

theorem restarts_write_iff :
    m.Restarts (.action (.write v)) ↔
      (m.acceptPins v).2.running = false ∧
        ((m.acceptPins v).1.keys.start || (m.acceptPins v).1.keys.continueKey) = true := by
  have hkeys : (m.acceptPins v).1.keys = Panel.keys m.panel.table m.panel.written v := rfl
  rw [(acceptPins_same v m).1, hkeys, Bool.and_eq_false_iff, Bool.not_eq_false', Bool.or_eq_true]
  exact Iff.rfl

theorem halted_stepped (o : Outcome) (p : Processor) (m : Machine) :
    (m.stepped o p).halted = true ↔ o = .halted ∨ m.halted = true := by
  cases o with
  | proceed => exact ⟨.inr, fun h => h.resolve_left nofun⟩
  | halted => exact ⟨fun _ => .inl rfl, fun _ => rfl⟩

theorem halted_resume (hm : m.Sound) (hr : m.resume = .ok (start, m')) :
    m'.halted = true ↔ m.switches.step = true ∧ m.processor.ExecutesHlt m.clock.now := by
  rcases resume_cases hr with ⟨hswitch, o, p, hp, rfl⟩ | ⟨hswitch, rfl⟩
  · rw [halted_stepped, Processor.step_halts hm.processor.coherent hp, hswitch]
    simp
  · rw [hswitch]
    exact ⟨nofun, fun h => absurd h.1 Bool.false_ne_true⟩

/-- A write halts the machine if the step that it makes it take does, and clears the latch
otherwise if it lets the machine go on. -/
theorem halted_write (hm : m.Sound) (hw : m.perform (.write v) = .ok m') :
    m'.halted = true ↔
      m.ExecutesHlt (.action (.write v)) ∨
        m.halted = true ∧ ¬ m.Restarts (.action (.write v)) := by
  obtain ⟨hrunning, hhalted, hclock, hswitches, -, -⟩ := acceptPins_same v m
  obtain ⟨start, hpress⟩ := pressKeys_of_write hw
  have hkept (hno : ¬ m.Restarts (.action (.write v))) (hsame : m'.halted = m.halted) :
      m'.halted = true ↔ m.ExecutesHlt (.action (.write v)) ∨
        m.halted = true ∧ ¬ m.Restarts (.action (.write v)) := by
    rw [hsame]
    exact ⟨fun h => .inr ⟨h, hno⟩, fun h => (h.resolve_left fun h => hno h.1).1⟩
  rcases pressKeys_cases hpress with ⟨hrun, rfl⟩ | ⟨hrun, hgoes, rfl⟩ | ⟨hrun, hgoes, hr⟩
  · refine hkept ?_ hhalted
    rw [restarts_write_iff, hrun]
    exact fun h => absurd h.1.symm Bool.false_ne_true
  · refine hkept ?_ ?_
    · rw [restarts_write_iff, hgoes]
      exact fun h => absurd h.2 Bool.false_ne_true
    · exact (pressed_same _ _).1.trans hhalted
  · have hrestarts : m.Restarts (.action (.write v)) := restarts_write_iff.mpr ⟨hrun, hgoes⟩
    have hsound := (sound_pressed (m.acceptPins v).1.keys (hm.acceptPins v) hrun).1
    obtain ⟨-, hsame, hsame'⟩ := pressed_same (m.acceptPins v).1.keys (m.acceptPins v).2
    rw [halted_resume hsound hr, hsame, hsame', hswitches, hclock]
    exact ⟨fun h => .inl ⟨hrestarts, h.1, h.2⟩, fun h => (h.resolve_right fun h => h.2 hrestarts).2⟩

/-- The latch after an operation. -/
theorem halted_handle (hm : m.Sound) (hop : m.handle op = .ok m') :
    m'.halted = true ↔ m.ExecutesHlt op ∨ m.halted = true ∧ ¬ m.Restarts op := by
  have hkept (hhlt : ¬ m.ExecutesHlt op) (hno : ¬ m.Restarts op) (hsame : m'.halted = m.halted) :
      m'.halted = true ↔ m.ExecutesHlt op ∨ m.halted = true ∧ ¬ m.Restarts op := by
    rw [hsame]
    exact ⟨fun h => .inr ⟨h, hno⟩, fun h => (h.resolve_left hhlt).1⟩
  cases op with
  | action a =>
    cases a with
    | write v => exact halted_write hm hop
    | look =>
      cases hop
      exact hkept id id rfl
    | wait interval =>
      cases hop
      exact hkept id id rfl
    | step =>
      rcases step_cases hop with ⟨hhalted, rfl⟩ | ⟨hhalted, o, p, hp, rfl⟩
      · refine hkept ?_ id rfl
        rintro ⟨h, -⟩
        rw [hhalted] at h
        cases h
      · rw [halted_stepped, Processor.step_halts hm.processor.coherent hp]
        unfold ExecutesHlt Restarts
        rw [hhalted]
        simp
  | stop =>
    cases hop
    refine hkept id id ?_
    unfold stop
    split <;> rfl
  | requestInterrupt =>
    cases hop
    exact hkept id id rfl
  | outside f =>
    cases hop
    exact hkept id id rfl

/-! ## Running -/

/-- A machine runs only while its STEP switch is off. -/
def RunsFreely (m : Machine) : Prop := m.running = true → m.switches.step = false

theorem runsFreely_of_stopped (hrun : m.running = false) : m.RunsFreely := by
  intro hgoes
  rw [hrun] at hgoes
  cases hgoes

theorem RunsFreely.stepped (h : m.RunsFreely) (o : Outcome) (p : Processor) :
    (m.stepped o p).RunsFreely := by
  cases o with
  | proceed => exact h
  | halted => exact nofun

theorem RunsFreely.acceptPins (v : PinVector) (m : Machine) : (m.acceptPins v).2.RunsFreely := by
  obtain ⟨hrunning, -, -, hswitches, -, -⟩ := acceptPins_same v m
  intro hrun
  rw [hrunning] at hrun
  rw [hswitches]
  -- a write with STEP on has stopped the machine
  have hstop : (m.acceptPins v).1.stopRequested =
      (m.running && ((m.acceptPins v).1.keys.stop || (Panel.switches m.panel.table v).step)) := rfl
  rw [hstop] at hrun
  cases hswitch : (Panel.switches m.panel.table v).step with
  | false => rfl
  | true =>
    rw [hswitch] at hrun
    simp at hrun

theorem RunsFreely.pressKeys (h : m.RunsFreely) (hm : m.Sound)
    (hpress : m.pressKeys keys = .ok (start, m')) : m'.RunsFreely := by
  rcases pressKeys_cases hpress with ⟨-, rfl⟩ | ⟨hrun, -, rfl⟩ | ⟨hrun, -, hr⟩
  · exact h
  · exact runsFreely_of_stopped (sound_pressed keys hm hrun).2
  · rcases resume_cases hr with ⟨-, o, p, -, rfl⟩ | ⟨hswitch, rfl⟩
    · have hcleared : RunsFreely { m.pressed keys with halted := false } :=
        runsFreely_of_stopped (sound_pressed keys hm hrun).2
      exact hcleared.stepped o p
    · exact fun _ => hswitch

theorem RunsFreely.handle (h : m.RunsFreely) (hm : m.Sound) (hop : m.handle op = .ok m') :
    m'.RunsFreely := by
  refine handle_preserves h hop ?_ ?_ ?_ ?_ ?_ ?_
  · exact fun _ => h.stepped _ _
  · exact fun hpress => (RunsFreely.acceptPins _ m).pressKeys (hm.acceptPins _) hpress
  · exact fun _ => h
  · exact runsFreely_of_stopped (running_stop m)
  · exact h
  · exact fun _ => h

theorem runsFreely_handleAll (hall : (powerUp setup t tty clock).handleAll ops = .ok m) :
    m.RunsFreely := by
  have hboth : m.Reachable ∧ m.RunsFreely := by
    refine handleAll_induction (P := fun m => m.Reachable ∧ m.RunsFreely) hall
      ⟨.powerUp setup t tty clock, nofun⟩ ?_
    rintro op m m' ⟨hm, h⟩ hop
    exact ⟨hm.handle hop, h.handle hm.sound hop⟩
  exact hboth.2

/-! ## Halted -/

/-- While the machine is halted, steps do nothing, and a request is remembered. -/
theorem handleAll_of_halted (hhalted : m.halted = true)
    (hops : ∀ op ∈ ops, op = .action .step ∨ op = .requestInterrupt) :
    ∃ m', m.handleAll ops = .ok m' ∧ m'.step = .ok (.halted, m') ∧
      ((.requestInterrupt ∉ ops ∧ m' = m) ∨
        (.requestInterrupt ∈ ops ∧ m' = { m with processor.fields.requested := true })) := by
  induction ops generalizing m with
  | nil => exact ⟨m, rfl, step_of_halted hhalted, .inl ⟨List.not_mem_nil, rfl⟩⟩
  | cons op ops ih =>
    obtain ⟨hop, hrest⟩ := List.forall_mem_cons.mp hops
    rcases hop with rfl | rfl
    · have hstep : m.handle (.action .step) = .ok m := by
        unfold handle perform
        dsimp only
        rw [step_of_halted hhalted]
      obtain ⟨m', hall, hagain, hend⟩ := ih hhalted hrest
      have hmem : Operation.requestInterrupt ∈ .action .step :: ops ↔
          Operation.requestInterrupt ∈ ops := List.mem_cons.trans (or_iff_right nofun)
      refine ⟨m', handleAll_cons_eq_ok_iff.mpr ⟨m, hstep, hall⟩, hagain, ?_⟩
      rw [hmem]
      exact hend
    · have hrequested : m.requestInterrupt.halted = true := hhalted
      obtain ⟨m', hall, hagain, hend⟩ := ih hrequested hrest
      refine ⟨m', handleAll_cons_eq_ok_iff.mpr ⟨_, rfl, hall⟩, hagain, .inr ?_⟩
      refine ⟨List.mem_cons_self, ?_⟩
      rcases hend with ⟨-, rfl⟩ | ⟨-, rfl⟩
      · rfl
      · rfl

/-- How a machine with a given wiring runs and halts, after the pins were last written in a given
way. -/
structure RunModes (t : PinTable) (written : PinVector) (m : Machine) : Prop where
  panel : m.panel = ⟨t, written⟩
  exclusive : ¬ (m.running = true ∧ m.halted = true)
  /-- While it is running, the STEP switch as last written is off. -/
  free : m.running = true → t.gather .stepSwitch written = 0
  /-- An operation leaves it halted exactly if it executes an HLT, or if it was halted before and
  the operation does not let it go on. -/
  latch : ∀ op m', m.handle op = .ok m' →
    (m'.halted = true ↔ m.ExecutesHlt op ∨ m.halted = true ∧ ¬ m.Restarts op)
  /-- While it is halted, any number of steps, and of requests for interrupts among them, all go
  through and change nothing but the latched request. -/
  rest : m.halted = true → ∀ ops, (∀ op ∈ ops, op = .action .step ∨ op = .requestInterrupt) →
    ∃ m', m.handleAll ops = .ok m' ∧ m'.step = .ok (.halted, m') ∧
      ((.requestInterrupt ∉ ops ∧ m' = m) ∨
        (.requestInterrupt ∈ ops ∧ m' = { m with processor.fields.requested := true }))

/-- Whatever is done to a machine, it runs and halts as it should. -/
theorem run_modes (hall : (powerUp setup t tty clock).handleAll ops = .ok m) :
    RunModes t (lastWritten (.off t.pinCount) ops) m := by
  have hsound := ((Reachable.powerUp setup t tty clock).handleAll hall).sound
  have hfollows := (follows_powerUp setup t tty clock).handleAll hall
  constructor
  · calc
      m.panel = ⟨m.panel.table, m.panel.written⟩ := rfl
      _ = ⟨t, lastWritten (.off t.pinCount) ops⟩ := by rw [hfollows.table, hfollows.written]
  · rintro ⟨hrun, hhalted⟩
    exact absurd ((hsound.halted hrun).symm.trans hhalted) Bool.false_ne_true
  · intro hrun
    have hswitch := runsFreely_handleAll hall hrun
    rw [hfollows.switches] at hswitch
    exact bne_eq_false_iff_eq.mp hswitch
  · intro op m' hop
    exact halted_handle hsound hop
  · intro hhalted ops hops
    exact handleAll_of_halted hhalted hops

/-- Going on fails only if the teletype does. -/
theorem exists_resume {tty' : Teletype} {events : List Event} (hm : m.Sound)
    (hpoll : m.processor.tty.poll m.clock.now = .ok (tty', events)) :
    ∃ start m', m.resume = .ok (start, m') := by
  obtain ⟨o, q, hs⟩ := Processor.exists_step hm.processor hpoll
  have hstep : step { m with halted := false } =
      .ok (o, stepped o q { m with halted := false }) := by
    rw [step_of_not_halted rfl]
    dsimp only
    rw [hs]
  unfold resume
  dsimp only
  rw [hstep]
  split_ifs
  · exact ⟨_, _, rfl⟩
  · exact ⟨_, _, rfl⟩

/-- LOAD ADDRESS and CONTINUE, with STEP on, make a stopped machine execute the HLT that the
switches select. -/
theorem executesHlt_write {home : Word} (hrun : m.running = false)
    (hoff : m.processor.fields.enabled = false)
    (hkeys : Panel.keys m.panel.table m.panel.written v = ⟨false, false, true, true, false, false⟩)
    (hswitches : Panel.switches m.panel.table v = ⟨home, true, false, false, false⟩)
    (hword : m.processor.core.peek ⟨0, home⟩ = 0o7402) {tty' : Teletype} {events : List Event}
    (hpoll : m.processor.tty.poll m.clock.now = .ok (tty', events)) :
    m.ExecutesHlt (.action (.write v)) ∧ ∃ m', m.handle (.action (.write v)) = .ok m' := by
  have haccept := acceptPins_eq hkeys (by rw [hrun, Bool.false_and])
  have hpressed : (m.withPins v).pressed ⟨false, false, true, true, false, false⟩ =
      (m.withPins v).pressLoadAddress := rfl
  have hnext : (m.withPins v).pressLoadAddress.processor.nextWord = 0o7402 := by
    have hplace : (m.withPins v).pressLoadAddress.processor.nextWord = m.processor.core.peek
      ⟨switchedField (Panel.switches m.panel.table v).instField,
        (Panel.switches m.panel.table v).switchRegister⟩ := rfl
    rw [hplace, hswitches]
    exact hword
  have hsound : (m.withPins v).pressLoadAddress.Sound :=
    ⟨Processor.sound_of_atBoundary rfl, fun h => absurd (hrun.symm.trans h) Bool.false_ne_true⟩
  constructor
  · refine ⟨restarts_write_iff.mpr ?_, ?_, ?_⟩
    · rw [haccept]
      exact ⟨hrun, rfl⟩
    · rw [hswitches]
    · rw [haccept, hpressed]
      refine ⟨rfl, ?_, ?_⟩
      · exact Processor.not_acknowledges_of_disabled hoff
      · rw [hnext]
        exact ⟨_, rfl, rfl⟩
  · obtain ⟨start, m', hresume⟩ := exists_resume hsound hpoll
    have hrun' : (m.withPins v).running = false := hrun
    have hpress : (m.withPins v).pressKeys (Panel.keys m.panel.table m.panel.written v) =
        .ok (start, m') := by
      rw [hkeys, pressKeys_of_stopped hrun', hpressed]
      exact hresume
    exact ⟨m', perform_write_of_stopped hrun hpress⟩

/-- DEPOSIT leaves the word in a field that is fitted. -/
theorem peek_pressDeposit (h : m.processor.core.isFitted m.processor.fields.dataField = true) :
    m.pressDeposit.processor.core.peek ⟨m.processor.fields.dataField, m.processor.regs.pc⟩ =
      m.switches.switchRegister :=
  (Core.peek_write _ _ _ _).trans (if_pos ⟨rfl, h⟩)

/-- HLT, deposited at location 0 of a new machine, and executed by CONTINUE with STEP on. -/
theorem run_modes_halted :
    let t := PinTable.standard
    let deposit := t.spread .deposit 1 (t.spread .switchRegister 0o7402 (.off t.pinCount))
    let go := t.spread .stepSwitch 1 (t.spread .continueKey 1 (t.spread .loadAddress 1
      (.off t.pinCount)))
    ∃ m, (powerUp .standard t (.powerUp 10 .unconnected .unconnected) ⟨0, 1⟩).handleAll
        [.action (.write deposit), .action (.write go)] = .ok m ∧
      RunModes t go m ∧ m.halted = true := by
  intro t deposit go
  have hdeposit : Panel.keys t (.off t.pinCount) deposit = .only .deposit := by
    simp [Panel.keys, Panel.wentDown, Keys.only, deposit, PinTable.gather_spread_of_ne,
      Signal.width]
  have hsr : t.gather .switchRegister deposit = 0o7402 := by
    simp [deposit, PinTable.gather_spread_of_ne, Signal.width]
  have hkeys : Panel.keys t deposit go = ⟨false, false, true, true, false, false⟩ := by
    simp [Panel.keys, Panel.wentDown, deposit, go, PinTable.gather_spread_of_ne, Signal.width]
  have hswitches : Panel.switches t go = ⟨0, true, false, false, false⟩ := by
    simp [Panel.switches, go, PinTable.gather_spread_of_ne, Signal.width]
  obtain ⟨m₀, hm₀⟩ : ∃ m₀, m₀ = powerUp .standard t (.powerUp 10 .unconnected .unconnected)
    ⟨0, 1⟩ := ⟨_, rfl⟩
  have hpanel : m₀.panel = ⟨t, .off t.pinCount⟩ := by rw [hm₀]; rfl
  have hrun : m₀.running = false := by rw [hm₀]; rfl
  have hfields : m₀.processor.fields = .powerUp := by rw [hm₀]; rfl
  have hfield : m₀.processor.fields.dataField = 0 := by rw [hfields]; rfl
  have hpc : m₀.processor.regs.pc = 0 := by rw [hm₀]; rfl
  have hfitted : m₀.processor.core.isFitted 0 = true := by rw [hm₀]; rfl
  have hpoll : m₀.processor.tty.poll m₀.clock.now = .ok (m₀.processor.tty, []) := by rw [hm₀]; rfl
  -- the first write deposits the word
  have hpress : (m₀.withPins deposit).pressKeys
      (Panel.keys m₀.panel.table m₀.panel.written deposit) =
        .ok (false, (m₀.withPins deposit).pressDeposit) := by
    rw [hpanel, hdeposit]
    exact pressKeys_deposit hrun
  have hwrite : m₀.handle (.action (.write deposit)) = .ok (m₀.withPins deposit).pressDeposit :=
    perform_write_of_stopped hrun hpress
  obtain ⟨m₁, hm₁⟩ : ∃ m₁, m₁ = (m₀.withPins deposit).pressDeposit := ⟨_, rfl⟩
  have hpanel₁ : m₁.panel = ⟨t, deposit⟩ := by
    rw [hm₁]
    exact congrArg (fun panel : Panel => { panel with written := deposit }) hpanel
  have hoff : m₁.processor.fields.enabled = false := by
    rw [hm₁]
    exact congrArg Extension.enabled hfields
  have hword : m₁.processor.core.peek ⟨0, 0⟩ = 0o7402 := by
    have hsr₁ : (m₀.withPins deposit).switches.switchRegister = 0o7402 := by
      unfold withPins Panel.switches
      rw [hpanel]
      dsimp only
      rw [hsr]
      rfl
    have hpeek := peek_pressDeposit (m := m₀.withPins deposit) (hfield.symm ▸ hfitted)
    rw [hsr₁, ← hm₁] at hpeek
    rw [← hpeek, ← hfield, ← hpc]
    rfl
  have hrun₁ : m₁.running = false := by rw [hm₁]; exact hrun
  have hpoll₁ : m₁.processor.tty.poll m₁.clock.now = .ok (m₀.processor.tty, []) := by
    rw [hm₁]
    exact hpoll
  -- and the second one executes it
  obtain ⟨hexecutes, m, hgo⟩ := executesHlt_write (v := go) hrun₁ hoff (by rw [hpanel₁, hkeys])
    (by rw [hpanel₁, hswitches]) hword hpoll₁
  rw [← hm₁] at hwrite
  rw [← hm₀]
  have hall₁ : m₀.handleAll [.action (.write deposit)] = .ok m₁ :=
    handleAll_cons_eq_ok_iff.mpr ⟨m₁, hwrite, rfl⟩
  have hall : m₀.handleAll [.action (.write deposit), .action (.write go)] = .ok m :=
    handleAll_cons_eq_ok_iff.mpr ⟨m₁, hwrite, handleAll_cons_eq_ok_iff.mpr ⟨m, hgo, rfl⟩⟩
  have hmodes₁ := run_modes (hm₀ ▸ hall₁)
  have hmodes := run_modes (hm₀ ▸ hall)
  have hhalted := (hmodes₁.latch _ m hgo).mpr (.inl hexecutes)
  exact ⟨m, hall, hmodes, hhalted⟩

end Machine

end Pdp8
