import Pdp8.Proofs.Operations
import Pdp8.Proofs.PanelPins

/-!
# Pdp8.Proofs.PanelAgreement — the panel, the registers and core never disagree

The latest memory cycle is noted twice, in core for the lights, and in MA, MB and EA for the
registers.  Every cycle of the processor and every key notes it in both (`Noted`).  So whatever is
done to a machine, the lights that are read from the pins are the registers of the snapshot.
-/

namespace Pdp8

/-! ## The processor -/

namespace Processor

/-- MA, MB and EA hold the latest memory cycle. -/
def Noted (p : Processor) : Prop := p.core.last = ⟨⟨p.regs.ea, p.regs.ma⟩, p.regs.mb⟩

variable {p q : Processor} {now : Time} {o : Outcome}

theorem noted_read (a : Address) (p : Processor) : (p.read a).Noted := rfl

theorem noted_write (a : Address) (word : Word) (p : Processor) : (p.write a word).Noted :=
  Core.last_write p.core a word

theorem noted_interrupt (p : Processor) : p.interrupt.Noted := Core.last_write _ _ _

theorem noted_loadInstruction (p : Processor) : p.loadInstruction.Noted := by
  unfold loadInstruction reportTrace
  dsimp only
  split <;> rfl

theorem noted_loadPointer (a : Address) (p : Processor) : (p.loadPointer a).Noted := by
  unfold loadPointer
  split
  · exact noted_write _ _ _
  · exact noted_read _ _

theorem noted_defer (pointer : Word) (p : Processor) : (p.defer pointer).Noted := by
  have hloaded := noted_loadPointer ⟨p.fields.instructionField, pointer⟩ { p with cycle := .defer }
  rw [defer_eq]
  dsimp only
  split
  · exact hloaded
  · exact hloaded

theorem noted_refers (op : MemoryOp) (a : Address) (p : Processor) : (refers op a p).Noted := by
  cases op with
  | and => exact noted_read a p
  | tad => exact noted_read a p
  | dca => exact noted_write a _ p
  | jms => exact noted_write _ _ _
  | isz =>
    have hwritten := noted_write a (Word.successor (p.read a).regs.mb) (p.read a)
    unfold refers isz
    dsimp only
    split
    · exact hwritten
    · exact hwritten

theorem Noted.respond (h : p.Noted) (code : Word) (response : IotResponse) :
    (p.respond code response).Noted := by
  cases response with
  | skip => exact h
  | done => exact h
  | notRecognised => exact h

theorem Noted.transfer (h : p.Noted) (code : Word) : (p.transfer code).Noted := by
  unfold Processor.transfer
  split_ifs
  · exact h
  · exact h
  · rcases p.fields.iot code p.regs.ac with ⟨response, ac, fields⟩
    refine respond ?_ code response
    exact h
  · rcases p.tty.iot code p.regs.ac with ⟨response, ac, tty⟩
    refine respond ?_ code response
    exact h

theorem Noted.operate (h : p.Noted) (op : Operate) : (p.operate op).2.Noted := by
  cases op with
  | group1 g =>
    unfold Processor.operate operate1
    dsimp only
    split
    · exact h
    · exact h
  | group2 g =>
    unfold Processor.operate operate2
    dsimp only
    split_ifs
    all_goals exact h
  | undefined word => exact h

theorem Noted.beginInstruction (h : p.Noted) : p.beginInstruction.2.Noted := by
  unfold Processor.beginInstruction
  split
  · exact h
  · split
    · exact h
    · exact h
  · exact h.transfer _
  · exact h.operate _

/-- Every step has a memory cycle, and notes it. -/
theorem noted_step (hp : p.Coherent) (hs : p.step now = .ok (o, q)) : q.Noted := by
  cases hb : p.atBoundary with
  | true =>
    rw [step_of_atBoundary hb, fetch_eq_ok_iff] at hs
    obtain ⟨polled, -, ⟨-, -, rfl⟩ | ⟨-, he⟩⟩ := hs
    · exact noted_interrupt polled
    · have hbegun := (noted_loadInstruction polled).beginInstruction
      rwa [← he] at hbegun
  | false =>
    rcases step_off_boundary hp hb now with ⟨operand, -, -, -, hs'⟩ | ⟨op, operand, a, -, hs'⟩
    · rw [hs] at hs'
      cases hs'
      exact noted_defer _ p
    · rw [hs] at hs'
      cases hs'
      exact noted_refers op a _

end Processor

/-! ## The machine -/

namespace Machine

open Processor

variable {m m' : Machine} {op : Operation} {ops : List Operation} {setup : Setup} {t : PinTable}
  {tty : Teletype} {clock : Clock} {keys : Keys} {o : Outcome} {p : Processor} {start : Bool}

theorem noted_powerUp (setup : Setup) (t : PinTable) (tty : Teletype) (clock : Clock) :
    (powerUp setup t tty clock).processor.Noted := rfl

/-- LOAD ADDRESS, DEPOSIT and EXAMINE have a memory cycle each, and START has none. -/
theorem noted_pressed (h : m.processor.Noted) (keys : Keys) :
    (m.pressed keys).processor.Noted := by
  refine pressed_induction (P := fun m => m.processor.Noted) keys h ?_ ?_ ?_ ?_
  · exact fun _ => noted_read _ _
  · exact fun _ => noted_write _ _ _
  · exact fun _ => noted_read _ _
  · exact id

theorem noted_pressKeys (hm : m.Sound) (h : m.processor.Noted)
    (hpress : m.pressKeys keys = .ok (start, m')) : m'.processor.Noted := by
  rcases pressKeys_cases hpress with ⟨-, rfl⟩ | ⟨-, -, rfl⟩ | ⟨hrun, -, hr⟩
  · exact h
  · exact noted_pressed h keys
  · rcases resume_cases hr with ⟨-, o, p, hp, rfl⟩ | ⟨-, rfl⟩
    · rw [processor_stepped]
      exact noted_step (sound_pressed keys hm hrun).1.processor.coherent hp
    · exact noted_pressed h keys

/-- Everything that is done to a machine notes its memory cycles. -/
theorem noted_handle (hm : m.Sound) (h : m.processor.Noted) (hop : m.handle op = .ok m') :
    m'.processor.Noted := by
  refine handle_preserves (P := fun m => m.processor.Noted) h hop ?_ ?_ ?_ ?_ ?_ ?_
  · intro o p hp
    rw [processor_stepped]
    exact noted_step hm.processor.coherent hp
  · intro v start m' hpress
    obtain ⟨-, -, -, -, -, log, heq⟩ := acceptPins_same v m
    have haccepted : (m.acceptPins v).2.processor.Noted := by
      rw [heq]
      exact h
    exact noted_pressKeys (hm.acceptPins v) haccepted hpress
  · exact fun _ => h
  · unfold stop
    split
    · exact h
    · exact h
  · exact h
  · exact fun _ => h

theorem noted_handleAll (hall : (powerUp setup t tty clock).handleAll ops = .ok m) :
    m.processor.Noted := by
  have hboth : m.Reachable ∧ m.processor.Noted := by
    refine handleAll_induction (P := fun m => m.Reachable ∧ m.processor.Noted) hall
      ⟨.powerUp setup t tty clock, noted_powerUp setup t tty clock⟩ ?_
    rintro op m m' ⟨hm, h⟩ hop
    exact ⟨hm.handle hop, noted_handle hm.sound h hop⟩
  exact hboth.2

/-- A panel with a given wiring, the snapshot, and core are at one, after the pins were last written
in a given way. -/
structure PanelAgrees (t : PinTable) (written : PinVector) (m : Machine) : Prop where
  /-- MA, MB and EA are the latest memory cycle, whether or not the field is fitted. -/
  memory : m.processor.core.last = ⟨⟨m.processor.regs.ea, m.snapshot.ma⟩, m.snapshot.mb⟩
  memoryAddress : t.gather .memoryAddress m.readPins = m.snapshot.ma.toNat
  memoryBuffer : t.gather .memoryBuffer m.readPins = m.snapshot.mb.toNat
  /-- One light for the low bit of the field. -/
  extendedAddress :
    t.gather .extendedAddress m.readPins = m.processor.core.last.address.field.toNat % 2
  /-- SR is what the switches were set to last. -/
  switchRegister : m.snapshot.sr.toNat = t.gather .switchRegister written
  /-- The pins say so too. -/
  switches : t.gather .switchRegister m.readPins = m.snapshot.sr.toNat
  /-- At most one of the lights for the major states is on. -/
  oneState : t.gather .fetch m.readPins + t.gather .defer m.readPins +
    t.gather .execute m.readPins ≤ 1
  /-- None is exactly in the idle state. -/
  noState : t.gather .fetch m.readPins + t.gather .defer m.readPins +
    t.gather .execute m.readPins = 0 ↔ m.snapshot.cycle = .idle
  run : t.gather .run m.readPins = m.snapshot.running.toNat
  interruptOn : t.gather .interruptOn m.readPins = m.snapshot.interruptsEnabled.toNat
  link : t.gather .link m.readPins = m.snapshot.link.toNat
  accumulator : t.gather .accumulator m.readPins = m.snapshot.ac.toNat
  instructionRegister : t.gather .instructionRegister m.readPins = m.snapshot.ir.toNat

/-- Whatever is done to a machine, of any configuration and with any wiring of its panel, the panel,
the snapshot and core never disagree. -/
theorem panel_agreement (hall : (powerUp setup t tty clock).handleAll ops = .ok m) :
    PanelAgrees t (lastWritten (.off t.pinCount) ops) m := by
  have hnoted : m.processor.core.last =
      ⟨⟨m.processor.regs.ea, m.processor.regs.ma⟩, m.processor.regs.mb⟩ := noted_handleAll hall
  have hfollows := (follows_powerUp setup t tty clock).handleAll hall
  have hlight {s : Signal} (hs : s.isInput = false) :
      t.gather s m.readPins = m.lights.value s := by
    have h := m.panel.gather_render_light m.lights hs
    rwa [hfollows.table] at h
  have hsr : m.processor.regs.sr.toNat =
      t.gather .switchRegister (lastWritten (.off t.pinCount) ops) := by
    rw [hfollows.sr, hfollows.switches]
    exact Nat.mod_eq_of_lt (t.gather_lt .switchRegister _)
  have hinput := m.panel.gather_render_input m.lights (s := .switchRegister) rfl
  rw [hfollows.table, hfollows.written] at hinput
  have hmemory : m.lights.value .memoryAddress = m.processor.regs.ma.toNat ∧
      m.lights.value .memoryBuffer = m.processor.regs.mb.toNat := by
    unfold Lights.value lights
    dsimp only
    rw [hnoted]
    exact ⟨rfl, rfl⟩
  have hstates : m.lights.value .fetch + m.lights.value .defer + m.lights.value .execute =
      if m.processor.cycle = .idle then 0 else 1 := by
    unfold Lights.value lights
    dsimp only
    cases m.processor.cycle <;> rfl
  rw [← hlight rfl, ← hlight rfl, ← hlight rfl] at hstates
  constructor
  · exact hnoted
  · exact (hlight rfl).trans hmemory.1
  · exact (hlight rfl).trans hmemory.2
  · have hbit := Nat.toNat_testBit m.processor.core.last.address.field.toNat 0
    rw [Nat.pow_zero, Nat.div_one] at hbit
    exact (hlight rfl).trans hbit
  · exact hsr
  · exact hinput.trans hsr.symm
  · rw [hstates]
    split_ifs <;> decide
  · rw [hstates]
    split_ifs with hidle
    · exact ⟨fun _ => hidle, fun _ => rfl⟩
    · exact ⟨nofun, fun h => absurd h hidle⟩
  · exact hlight rfl
  · exact hlight rfl
  · exact hlight rfl
  · exact hlight rfl
  · exact hlight rfl

/-- What LOAD ADDRESS refers to. -/
theorem last_pressLoadAddress (m : Machine) :
    m.pressLoadAddress.processor.core.last.address =
      ⟨switchedField m.switches.instField, m.switches.switchRegister⟩ := rfl

/-- LOAD ADDRESS in a field that is not fitted. -/
theorem panel_agreement_unfitted :
    let t := PinTable.standard
    let v := t.spread .loadAddress 1 (t.spread .instField 1 (t.spread .switchRegister 0o200
      (.off t.pinCount)))
    ∃ m, (powerUp ⟨1, 10, false⟩ t (.powerUp 10 .unconnected .unconnected) ⟨0, 1⟩).handleAll
        [.action (.write v)] = .ok m ∧
      PanelAgrees t v m ∧ m.processor.core.isFitted 1 = false ∧
      t.gather .memoryAddress m.readPins = 0o200 ∧ t.gather .extendedAddress m.readPins = 1 := by
  intro t v
  obtain ⟨m₀, hm₀⟩ : ∃ m₀, m₀ = powerUp ⟨1, 10, false⟩ t (.powerUp 10 .unconnected .unconnected)
    ⟨0, 1⟩ := ⟨_, rfl⟩
  have hpanel : m₀.panel = .ofTable t := by rw [hm₀]; rfl
  have hrun : m₀.running = false := by rw [hm₀]; rfl
  have hcount : m₀.processor.core.isFitted 1 = false := by rw [hm₀]; rfl
  have hkeys : Panel.keys m₀.panel.table m₀.panel.written v = .only .loadAddress := by
    rw [hpanel]
    simp [Panel.keys, Panel.wentDown, Panel.ofTable, Keys.only, v, PinTable.gather_spread_of_ne,
      Signal.width]
  have hsr : t.gather .switchRegister v = 0o200 := by
    simp [v, PinTable.gather_spread_of_ne, Signal.width]
  have hfield : t.gather .instField v = 1 := by
    simp [v, PinTable.gather_spread_of_ne, Signal.width]
  have hpress : (m₀.withPins v).pressKeys (Panel.keys m₀.panel.table m₀.panel.written v) =
      .ok (false, (m₀.withPins v).pressLoadAddress) := by
    rw [hkeys]
    exact pressKeys_loadAddress hrun
  have hall : (powerUp ⟨1, 10, false⟩ t (.powerUp 10 .unconnected .unconnected) ⟨0, 1⟩).handleAll
      [.action (.write v)] = .ok (m₀.withPins v).pressLoadAddress := by
    rw [← hm₀]
    exact handleAll_cons_eq_ok_iff.mpr ⟨_, perform_write_of_stopped hrun hpress, rfl⟩
  have hlast : (m₀.withPins v).pressLoadAddress.processor.core.last.address = ⟨1, 0o200⟩ := by
    rw [last_pressLoadAddress]
    unfold withPins Panel.switches
    rw [hpanel]
    dsimp only [Panel.ofTable]
    rw [hsr, hfield]
    rfl
  have hagrees := panel_agreement hall
  have hma : (m₀.withPins v).pressLoadAddress.snapshot.ma = 0o200 := by
    have hma := congrArg (fun r : Reference => r.address.location) hagrees.memory
    rw [hlast] at hma
    exact hma.symm
  refine ⟨_, hall, hagrees, hcount, ?_, ?_⟩
  · rw [hagrees.memoryAddress, hma]
    rfl
  · rw [hagrees.extendedAddress, hlast]
    rfl

end Machine

end Pdp8
