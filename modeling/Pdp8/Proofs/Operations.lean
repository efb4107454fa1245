import Pdp8.Proofs.Stopping

/-!
# Pdp8.Proofs.Operations — a machine in somebody's hands

From power-up on a machine is stepped, written to, stopped and asked for interrupts in any order,
while all sorts of things happen to its teletype.  `step_cases` and `pressKeys_cases` say what a
step and the keys can come to.  Whatever is done, the wiring of the panel stays as it is, and the
switches, with the switch register, are as the pins were written last (`Follows`).
-/

namespace Pdp8.Machine

/-- What can be done to a machine. -/
inductive Operation
  /-- It is stepped, looked at, written to, or left alone for a while. -/
  | action (a : Action)
  /-- It is stopped from outside. -/
  | stop
  /-- It is asked for an interrupt. -/
  | requestInterrupt
  /-- Something happens at the other ends of the teletype's lines. -/
  | outside (f : Teletype → Teletype)

/-- The machine after an operation. -/
def handle (op : Operation) (m : Machine) : Except Fault Machine :=
  match op with
  | .action a => m.perform a
  | .stop => .ok m.stop
  | .requestInterrupt => .ok m.requestInterrupt
  | .outside f => .ok (m.onTeletype f)

/-- The machine after some operations, unless one of them fails. -/
def handleAll : List Operation → Machine → Except Fault Machine
  | [], m => .ok m
  | op :: ops, m =>
    match m.handle op with
    | .error f => .error f
    | .ok m => m.handleAll ops

/-- The pins that an operation writes. -/
def Operation.written? : Operation → Option PinVector
  | .action (.write v) => some v
  | _ => none

/-- The pins as they were written last, which were `v` at first. -/
def lastWritten (v : PinVector) (ops : List Operation) : PinVector :=
  ops.foldl (fun v op => op.written?.getD v) v

variable {m m' : Machine} {a : Action} {op : Operation} {ops : List Operation} {v : PinVector}
  {t : PinTable} {keys : Keys} {o : Outcome} {p : Processor} {now : Time} {start : Bool}

theorem Reachable.handle (hm : m.Reachable) (h : m.handle op = .ok m') : m'.Reachable := by
  cases op with
  | action a => exact hm.perform h
  | stop =>
    cases h
    exact hm.stop
  | requestInterrupt =>
    cases h
    exact hm.requestInterrupt
  | outside f =>
    cases h
    exact hm.onTeletype f

theorem handleAll_cons_eq_ok_iff :
    m.handleAll (op :: ops) = .ok m' ↔ ∃ m₁, m.handle op = .ok m₁ ∧ m₁.handleAll ops = .ok m' := by
  rw [handleAll]
  cases m.handle op with
  | error f => simp
  | ok m₁ => simp

/-- What every operation preserves holds to the end. -/
theorem handleAll_induction {P : Machine → Prop} (h : m.handleAll ops = .ok m') (hm : P m)
    (hstep : ∀ {op m m'}, P m → m.handle op = .ok m' → P m') : P m' := by
  induction ops generalizing m with
  | nil =>
    cases h
    exact hm
  | cons op ops ih =>
    obtain ⟨m₁, hop, hrest⟩ := handleAll_cons_eq_ok_iff.mp h
    exact ih hrest (hstep hm hop)

theorem Reachable.handleAll (hm : m.Reachable) (h : m.handleAll ops = .ok m') : m'.Reachable :=
  handleAll_induction h hm fun hm hop => hm.handle hop

/-! ## What an operation can come to -/

/-- A step of a machine that is halted does nothing, and that of any other is one of its
processor. -/
theorem step_cases (h : m.perform .step = .ok m') :
    (m.halted = true ∧ m' = m) ∨
      (m.halted = false ∧
        ∃ o p, m.processor.step m.clock.now = .ok (o, p) ∧ m' = m.stepped o p) := by
  unfold perform at h
  dsimp only at h
  split at h
  · cases h
  · rename_i o _ hs
    cases h
    cases hhalted : m.halted with
    | true =>
      rw [step_of_halted hhalted] at hs
      cases hs
      exact .inl ⟨rfl, rfl⟩
    | false =>
      obtain ⟨p, hp, rfl⟩ := exists_of_step hhalted hs
      exact .inr ⟨rfl, o, p, hp, rfl⟩

/-- Going on is a step of the processor if the STEP switch is on, and otherwise the machine
runs. -/
theorem resume_cases (h : m.resume = .ok (start, m')) :
    (m.switches.step = true ∧ ∃ o p, m.processor.step m.clock.now = .ok (o, p) ∧
        m' = stepped o p { m with halted := false }) ∨
      (m.switches.step = false ∧
        m' = { report .running { m with halted := false } with running := true }) := by
  unfold resume at h
  dsimp only at h
  split_ifs at h with hswitch
  · split at h
    · cases h
    · rename_i o _ hs
      cases h
      obtain ⟨p, hp, rfl⟩ := exists_of_step rfl hs
      exact .inl ⟨hswitch, o, p, hp, rfl⟩
  · cases h
    exact .inr ⟨Bool.eq_false_iff.mpr hswitch, rfl⟩

/-- The keys do nothing to a running machine.  To any other they do what they do at once, and START
and CONTINUE make it go on. -/
theorem pressKeys_cases (h : m.pressKeys keys = .ok (start, m')) :
    (m.running = true ∧ m' = m) ∨
      (m.running = false ∧ (keys.start || keys.continueKey) = false ∧ m' = m.pressed keys) ∨
      (m.running = false ∧ (keys.start || keys.continueKey) = true ∧
        (m.pressed keys).resume = .ok (start, m')) := by
  cases hrun : m.running with
  | true =>
    rw [pressKeys_of_running hrun] at h
    cases h
    exact .inl ⟨rfl, rfl⟩
  | false =>
    rw [pressKeys_of_stopped hrun] at h
    split_ifs at h with hgoes
    · exact .inr (.inr ⟨rfl, hgoes, h⟩)
    · cases h
      exact .inr (.inl ⟨rfl, Bool.eq_false_iff.mpr hgoes, rfl⟩)

/-- A complete write takes in the pins, and then the keys act. -/
theorem pressKeys_of_write (h : m.perform (.write v) = .ok m') :
    ∃ start, (m.acceptPins v).2.pressKeys (m.acceptPins v).1.keys = .ok (start, m') := by
  unfold perform writePins at h
  dsimp only at h
  split at h
  · cases h
  · rename_i hw
    cases h
    split at hw
    · cases hw
    · rename_i hpress
      cases hw
      exact ⟨_, hpress⟩

/-- What is preserved by steps, by complete writes and by what comes from outside. -/
theorem handle_preserves {P : Machine → Prop} (hm : P m) (hop : m.handle op = .ok m')
    (hstep : ∀ {o p}, m.processor.step m.clock.now = .ok (o, p) → P (m.stepped o p))
    (hwrite : ∀ {v start m'}, (m.acceptPins v).2.pressKeys (m.acceptPins v).1.keys =
      .ok (start, m') → P m')
    (hwait : ∀ interval, P (m.advance interval)) (hstop : P m.stop)
    (hrequest : P m.requestInterrupt) (houtside : ∀ f, P (m.onTeletype f)) : P m' := by
  cases op with
  | action a =>
    cases a with
    | look =>
      cases hop
      exact hm
    | wait interval =>
      cases hop
      exact hwait interval
    | step =>
      rcases step_cases hop with ⟨-, rfl⟩ | ⟨-, o, p, hp, rfl⟩
      · exact hm
      · exact hstep hp
    | write v =>
      obtain ⟨start, hpress⟩ := pressKeys_of_write hop
      exact hwrite hpress
  | stop =>
    cases hop
    exact hstop
  | requestInterrupt =>
    cases hop
    exact hrequest
  | outside f =>
    cases hop
    exact houtside f

theorem perform_write_of_stopped (hrun : m.running = false)
    (hpress : (m.withPins v).pressKeys (Panel.keys m.panel.table m.panel.written v) =
      .ok (start, m')) : m.perform (.write v) = .ok m' := by
  have haccept := acceptPins_eq (m := m) (v := v) rfl (by rw [hrun, Bool.false_and])
  unfold perform writePins
  dsimp only
  rw [haccept]
  dsimp only
  rw [hpress]

/-- The keys that act at once leave the latch, the switches and the clock alone. -/
theorem pressed_same (keys : Keys) (m : Machine) :
    (m.pressed keys).halted = m.halted ∧ (m.pressed keys).switches = m.switches ∧
      (m.pressed keys).clock = m.clock :=
  pressed_induction
    (P := fun m' => m'.halted = m.halted ∧ m'.switches = m.switches ∧ m'.clock = m.clock) keys
    ⟨rfl, rfl, rfl⟩ id id id id

/-! ## The switches -/

/-- The panel has a given wiring, and the switches are as some pins set them. -/
structure Follows (t : PinTable) (v : PinVector) (m : Machine) : Prop where
  table : m.panel.table = t
  written : m.panel.written = v
  switches : m.switches = Panel.switches t v
  sr : m.processor.regs.sr = m.switches.switchRegister

theorem follows_powerUp (setup : Setup) (t : PinTable) (tty : Teletype) (clock : Clock) :
    (powerUp setup t tty clock).Follows t (.off t.pinCount) where
  table := rfl
  written := rfl
  switches := by
    unfold Panel.switches
    simp only [PinTable.gather_off]
    rfl
  sr := rfl

/-- A step leaves the switches as they are. -/
theorem Follows.stepped (h : m.Follows t v) (hp : m.processor.step now = .ok (o, p)) :
    (m.stepped o p).Follows t v := by
  have hsr : p.regs.sr = m.switches.switchRegister := (Processor.sr_of_step hp).trans h.sr
  cases o with
  | proceed => exact ⟨h.table, h.written, h.switches, hsr⟩
  | halted => exact ⟨h.table, h.written, h.switches, hsr⟩

/-- So do the keys. -/
theorem Follows.pressed (h : m.Follows t v) (keys : Keys) : (m.pressed keys).Follows t v := by
  refine pressed_induction (P := Follows t v) keys h ?_ ?_ ?_ ?_
  all_goals exact fun h => ⟨h.table, h.written, h.switches, h.sr⟩

theorem Follows.resume (h : m.Follows t v) (hr : m.resume = .ok (start, m')) : m'.Follows t v := by
  rcases resume_cases hr with ⟨-, o, p, hp, rfl⟩ | ⟨-, rfl⟩
  · have hcleared : Follows t v { m with halted := false } :=
      ⟨h.table, h.written, h.switches, h.sr⟩
    exact hcleared.stepped hp
  · exact ⟨h.table, h.written, h.switches, h.sr⟩

theorem Follows.pressKeys (h : m.Follows t v) (hpress : m.pressKeys keys = .ok (start, m')) :
    m'.Follows t v := by
  rcases pressKeys_cases hpress with ⟨-, rfl⟩ | ⟨-, -, rfl⟩ | ⟨-, -, hr⟩
  · exact h
  · exact h.pressed keys
  · exact (h.pressed keys).resume hr

/-- A write sets the switches. -/
theorem Follows.acceptPins (h : m.Follows t v) (w : PinVector) :
    (m.acceptPins w).2.Follows t w := by
  obtain ⟨-, -, -, hswitches, hpanel, htwin⟩ := acceptPins_same w m
  rw [h.table] at hswitches
  refine ⟨?_, ?_, hswitches, ?_⟩
  · rw [hpanel]
    exact h.table
  · rw [hpanel]
  · rw [hswitches, htwin.sr_eq, h.table]

theorem Follows.handle (h : m.Follows t v) (hop : m.handle op = .ok m') :
    m'.Follows t (op.written?.getD v) := by
  cases op with
  | action a =>
    cases a with
    | look =>
      cases hop
      exact h
    | wait interval =>
      cases hop
      exact ⟨h.table, h.written, h.switches, h.sr⟩
    | step =>
      rcases step_cases hop with ⟨-, rfl⟩ | ⟨-, o, p, hp, rfl⟩
      · exact h
      · exact h.stepped hp
    | write w =>
      obtain ⟨start, hpress⟩ := pressKeys_of_write hop
      exact (h.acceptPins w).pressKeys hpress
  | stop =>
    cases hop
    unfold stop
    split
    · exact ⟨h.table, h.written, h.switches, h.sr⟩
    · exact h
  | requestInterrupt =>
    cases hop
    exact ⟨h.table, h.written, h.switches, h.sr⟩
  | outside f =>
    cases hop
    exact ⟨h.table, h.written, h.switches, h.sr⟩

/-- The switches are as they were written last. -/
theorem Follows.handleAll (h : m.Follows t v) (hall : m.handleAll ops = .ok m') :
    m'.Follows t (lastWritten v ops) := by
  induction ops generalizing m v with
  | nil =>
    cases hall
    exact h
  | cons op ops ih =>
    obtain ⟨m₁, hop, hrest⟩ := handleAll_cons_eq_ok_iff.mp hall
    exact ih (h.handle hop) hrest

end Pdp8.Machine
