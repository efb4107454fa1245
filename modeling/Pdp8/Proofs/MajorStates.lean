import Pdp8.Proofs.Refinement
import Pdp8.Proofs.TeletypeHistory

/-!
# Pdp8.Proofs.MajorStates — the major states that instructions go through

A processor may be stepped, brought back to the idle state, and changed from outside at any moment.
Whatever is done to it, it never asks for a cycle that its instruction does not have: all that this
takes is `Coherent`, which nothing but a step could endanger.  From a boundary every instruction
goes through the major states of its kind (`Instruction.majorStates`).  The teletype is polled, and
an interrupt is taken, in the first of them only: the others are `Quiet`.
-/

namespace Pdp8

/-- The major states that an instruction goes through. -/
def Instruction.majorStates : Instruction → List Cycle
  | .memory _ operand => if operand.indirect then [.fetch, .defer, .execute] else [.fetch, .execute]
  | .jump operand => if operand.indirect then [.fetch, .defer] else [.fetch]
  | .iot _ => [.fetch]
  | .operate _ => [.fetch]

/-- One of the teletype's lines has failed. -/
def Fault.OfLine (f : Fault) : Prop :=
  (∃ e, f = .printerLine e) ∨ ∃ e, f = .keyboardLine e

namespace Processor

variable {p q r : Processor} {now : Time} {o : Outcome} {f : Fault}

/-! ## Calls -/

/-- What can be done to a processor. -/
inductive Call
  | step (now : Time)
  | goIdle
  /-- A read cycle for the panel. -/
  | panelRead (a : Address)
  /-- A write cycle for the panel. -/
  | panelWrite (a : Address) (word : Word)
  /-- The registers are changed from outside. -/
  | setRegisters (regs : Registers)
  /-- The memory extension is changed from outside. -/
  | setFields (fields : Extension)
  /-- Core and the teletype are changed, or others take their places. -/
  | connect (core : Core) (tty : Teletype)

/-- The processor after a call. -/
def carryOut (call : Call) (p : Processor) : Except Fault Processor :=
  match call with
  | .step now =>
    match p.step now with
    | .error f => .error f
    | .ok (_, p) => .ok p
  | .goIdle => .ok p.goIdle
  | .panelRead a => .ok (p.read a)
  | .panelWrite a word => .ok (p.write a word)
  | .setRegisters regs => .ok { p with regs := regs }
  | .setFields fields => .ok { p with fields := fields }
  | .connect core tty => .ok { p with core := core, tty := tty }

/-- The processor after some calls, up to the first that fails. -/
def carryOutAll : List Call → Processor → Except Fault Processor
  | [], p => .ok p
  | call :: calls, p =>
    match p.carryOut call with
    | .error f => .error f
    | .ok p => p.carryOutAll calls

theorem coherent_of_step (hp : p.Coherent) (h : p.step now = .ok (o, q)) : q.Coherent := by
  cases hb : p.atBoundary with
  | true =>
    rw [step_of_atBoundary hb, fetch_eq_ok_iff] at h
    obtain ⟨polled, -, ⟨-, -, rfl⟩ | ⟨-, he⟩⟩ := h
    · exact coherent_of_cycle nofun
    · have hq : q = polled.loadInstruction.beginInstruction.2 := congrArg Prod.snd he
      refine coherent_of_cycle ?_
      rw [hq, (sameControl_fetch polled).cycle, cycle_loadInstruction]
      exact nofun
  | false =>
    rcases step_off_boundary hp hb now with ⟨operand, -, ho, hi, hs⟩ | ⟨op, operand, a, -, hs⟩
    · rw [h] at hs
      cases hs
      intro _
      rw [current_defer]
      exact ⟨operand, ho, hi⟩
    · rw [h] at hs
      cases hs
      refine coherent_of_cycle ?_
      rw [cycle_refers]
      exact nofun

/-- A step fails only at a boundary, with its poll. -/
theorem poll_of_step_error (hp : p.Coherent) (h : p.step now = .error f) :
    p.atBoundary = true ∧ p.poll now = .error f := by
  cases hb : p.atBoundary with
  | true =>
    refine ⟨rfl, ?_⟩
    rw [step_of_atBoundary hb] at h
    cases hpoll : p.poll now with
    | error g =>
      unfold fetch at h
      rw [hpoll] at h
      cases h
      rfl
    | ok polled =>
      rw [fetch_eq_of_poll hpoll] at h
      split_ifs at h
  | false =>
    rcases step_off_boundary hp hb now with ⟨_, -, -, -, hs⟩ | ⟨_, _, _, -, hs⟩
    · rw [h] at hs
      cases hs
    · rw [h] at hs
      cases hs

theorem ofLine_of_poll (h : p.poll now = .error f) : f.OfLine := by
  unfold poll at h
  cases hpoll : p.tty.poll now with
  | ok r =>
    rw [hpoll] at h
    cases h
  | error g =>
    rw [hpoll] at h
    cases h
    rcases Teletype.poll_cases_of_error hpoll with ⟨-, e, he, -⟩ | ⟨e, he, -⟩
    · exact .inl ⟨e, he⟩
    · exact .inr ⟨e, he⟩

/-- Steps apart, a call leaves the cycle and the instruction alone, or brings the processor back to
the idle state. -/
theorem coherent_of_carryOut {call : Call} (hp : p.Coherent) (h : p.carryOut call = .ok q) :
    q.Coherent := by
  cases call with
  | step now =>
    unfold carryOut at h
    dsimp only at h
    split at h
    · cases h
    · rename_i hs
      cases h
      exact coherent_of_step hp hs
  | goIdle =>
    cases h
    exact coherent_of_cycle nofun
  | panelRead a =>
    cases h
    exact hp
  | panelWrite a word =>
    cases h
    exact hp
  | setRegisters regs =>
    cases h
    exact hp
  | setFields fields =>
    cases h
    exact hp
  | connect core tty =>
    cases h
    exact hp

theorem ofLine_of_carryOut {call : Call} (hp : p.Coherent) (h : p.carryOut call = .error f) :
    f.OfLine := by
  cases call with
  | step now =>
    unfold carryOut at h
    dsimp only at h
    split at h
    · rename_i hs
      cases h
      exact ofLine_of_poll (poll_of_step_error hp hs).2
    · cases h
  | goIdle => cases h
  | panelRead a => cases h
  | panelWrite a word => cases h
  | setRegisters regs => cases h
  | setFields fields => cases h
  | connect core tty => cases h

/-- Whatever the calls, they lead to a coherent state, unless a line fails. -/
theorem carryOutAll_cases (hp : p.Coherent) (calls : List Call) :
    (∃ f, p.carryOutAll calls = .error f ∧ f.OfLine) ∨
      ∃ q, p.carryOutAll calls = .ok q ∧ q.Coherent := by
  induction calls generalizing p with
  | nil => exact .inr ⟨p, rfl, hp⟩
  | cons call calls ih =>
    unfold carryOutAll
    cases hcall : p.carryOut call with
    | error f => exact .inl ⟨f, rfl, ofLine_of_carryOut hp hcall⟩
    | ok q => exact ih (coherent_of_carryOut hp hcall)

/-! ## Steps between two boundaries -/

/-- What has been reported meanwhile does not include an interrupt. -/
def Uninterrupted (p q : Processor) : Prop :=
  ∃ events, q.log = events ++ p.log ∧
    ∀ instructionField dataField, .interruptAcknowledged instructionField dataField ∉ events

theorem Uninterrupted.trans (h : Uninterrupted p q) (h' : Uninterrupted q r) :
    Uninterrupted p r := by
  obtain ⟨events, hlog, hnone⟩ := h
  obtain ⟨events', hlog', hnone'⟩ := h'
  refine ⟨events' ++ events, ?_, ?_⟩
  · rw [hlog', hlog, List.append_assoc]
  · intro instructionField dataField hmem
    rcases List.mem_append.mp hmem with hmem | hmem
    · exact hnone' _ _ hmem
    · exact hnone _ _ hmem

theorem uninterrupted_of_log (h : q.log = p.log) : Uninterrupted p q :=
  ⟨[], h, fun _ _ => List.not_mem_nil⟩

theorem uninterrupted_read (a : Address) (p : Processor) : Uninterrupted p (p.read a) := by
  refine ⟨(p.core.readEvents a).reverse, rfl, ?_⟩
  intro _ _
  unfold Core.readEvents
  split_ifs <;> simp

theorem uninterrupted_write (a : Address) (word : Word) (p : Processor) :
    Uninterrupted p (p.write a word) := by
  refine ⟨(p.core.writeEvents a).reverse, rfl, ?_⟩
  intro _ _
  unfold Core.writeEvents
  split_ifs <;> simp

/-- What a defer cycle does once the pointer is in MB: an indirect JMP is completed. -/
def completeJump (p : Processor) : Processor :=
  match p.current with
  | .jump _ => p.jump p.regs.mb
  | _ => p

theorem defer_eq_completeJump (pointer : Word) (p : Processor) :
    p.defer pointer =
      (loadPointer ⟨p.fields.instructionField, pointer⟩
        { p with cycle := .defer }).completeJump := by
  unfold defer completeJump loadPointer
  dsimp only
  split_ifs <;> rfl

theorem uninterrupted_defer (pointer : Word) (p : Processor) :
    Uninterrupted p (p.defer pointer) := by
  have hread (a : Address) : Uninterrupted p (read a { p with cycle := .defer }) :=
    uninterrupted_read a { p with cycle := .defer }
  have hload (a : Address) : Uninterrupted p (loadPointer a { p with cycle := .defer }) := by
    unfold loadPointer
    split_ifs
    · exact (hread a).trans (uninterrupted_write _ _ _)
    · exact hread a
  rw [defer_eq_completeJump]
  unfold completeJump
  split
  · exact (hload _).trans (uninterrupted_of_log rfl)
  · exact hload _

theorem uninterrupted_refers (op : MemoryOp) (a : Address) (p : Processor) :
    Uninterrupted p (refers op a p) := by
  cases op with
  | and => exact (uninterrupted_read a p).trans (uninterrupted_of_log rfl)
  | tad => exact (uninterrupted_read a p).trans (uninterrupted_of_log rfl)
  | isz =>
    have hwritten := (uninterrupted_read a p).trans
      (uninterrupted_write a (Word.successor (p.read a).regs.mb) (p.read a))
    unfold refers isz
    dsimp only
    split_ifs
    · exact hwritten.trans (uninterrupted_of_log rfl)
    · exact hwritten
  | dca => exact (uninterrupted_write a p.regs.ac p).trans (uninterrupted_of_log rfl)
  | jms =>
    exact (uninterrupted_of_log rfl).trans
      ((uninterrupted_write _ p.regs.pc { p with fields := p.fields.jump }).trans
        (uninterrupted_of_log rfl))

/-- The processor with another teletype. -/
def withTeletype (tty : Teletype) (p : Processor) : Processor := { p with tty := tty }

theorem loadPointer_withTeletype (tty : Teletype) (a : Address) (p : Processor) :
    loadPointer a (p.withTeletype tty) = (loadPointer a p).withTeletype tty := by
  unfold loadPointer
  split_ifs <;> rfl

theorem completeJump_withTeletype (tty : Teletype) (p : Processor) :
    (p.withTeletype tty).completeJump = p.completeJump.withTeletype tty := by
  obtain ⟨regs, fields, cycle, current, fetchedFrom, traced, core, tty', log⟩ := p
  cases current <;> rfl

theorem defer_withTeletype (tty : Teletype) (pointer : Word) (p : Processor) :
    (p.withTeletype tty).defer pointer = (p.defer pointer).withTeletype tty := by
  rw [defer_eq_completeJump pointer p, ← completeJump_withTeletype, ← loadPointer_withTeletype]
  exact defer_eq_completeJump pointer (p.withTeletype tty)

theorem isz_withTeletype (tty : Teletype) (a : Address) :
    (p.withTeletype tty).isz a = (p.isz a).withTeletype tty := by
  unfold isz
  dsimp only
  by_cases h : ((p.read a).write a (Word.successor (p.read a).regs.mb)).regs.mb = 0
  · rw [if_pos h]
    exact if_pos h
  · rw [if_neg h]
    exact if_neg h

theorem refers_withTeletype (tty : Teletype) (op : MemoryOp) (a : Address) :
    refers op a (p.withTeletype tty) = (refers op a p).withTeletype tty := by
  cases op with
  | isz => exact isz_withTeletype tty a
  | and => rfl
  | tad => rfl
  | dca => rfl
  | jms => rfl

theorem fields_defer (pointer : Word) :
    (p.defer pointer).fields = p.fields ∨ (p.defer pointer).fields = p.fields.jump := by
  have hload := fields_loadPointer { p with cycle := .defer } ⟨p.fields.instructionField, pointer⟩
  rw [defer_eq_completeJump]
  unfold completeJump
  split
  · exact .inr (congrArg Extension.jump hload)
  · exact .inl hload

theorem fields_refers (op : MemoryOp) (a : Address) :
    (refers op a p).fields = p.fields ∨ (refers op a p).fields = p.fields.jump := by
  cases op with
  | isz =>
    unfold refers isz
    dsimp only
    split_ifs
    · exact .inl rfl
    · exact .inl rfl
  | and => exact .inl rfl
  | tad => exact .inl rfl
  | dca => exact .inl rfl
  | jms => exact .inr rfl

/-- A step that is the same at any time and with any teletype, which it leaves alone, and that takes
no interrupt. -/
structure Quiet (p q : Processor) : Prop where
  step : ∀ now, p.step now = .ok (.proceed, q)
  teletype : ∀ tty now, (p.withTeletype tty).step now = .ok (.proceed, q.withTeletype tty)
  fields : q.fields = p.fields ∨ q.fields = p.fields.jump
  uninterrupted : Uninterrupted p q

theorem quiet_defer {operand : Operand} (hc : p.cycle = .fetch)
    (ho : p.current.pendingOperand? = some operand) (hi : operand.indirect = true) :
    Quiet p (p.defer (operand.resolve p.fetchedFrom)) where
  step now := step_defer hc ho hi now
  teletype tty now := by
    rw [← defer_withTeletype]
    exact step_defer (p := p.withTeletype tty) hc ho hi now
  fields := fields_defer _
  uninterrupted := uninterrupted_defer _ p

theorem quiet_refers {op : MemoryOp} {a : Address}
    (hs : ∀ tty now, (p.withTeletype tty).step now =
      .ok (.proceed, refers op a (withTeletype tty { p with cycle := .execute }))) :
    Quiet p (refers op a { p with cycle := .execute }) where
  step now := hs p.tty now
  teletype tty now := by
    rw [hs, refers_withTeletype]
  fields := fields_refers (p := { p with cycle := .execute }) op a
  uninterrupted := uninterrupted_refers op a { p with cycle := .execute }

theorem quiet_execute_direct {op : MemoryOp} {operand : Operand} (hc : p.cycle = .fetch)
    (ho : p.current = .memory op operand) (hi : operand.indirect = false) :
    Quiet p
      (refers op ⟨p.fields.instructionField, operand.resolve p.fetchedFrom⟩
        { p with cycle := .execute }) :=
  quiet_refers fun tty now => step_execute_direct (p := p.withTeletype tty) hc ho hi now

theorem quiet_execute_indirect {op : MemoryOp} {operand : Operand} (hc : p.cycle = .defer)
    (ho : p.current = .memory op operand) :
    Quiet p (refers op ⟨p.fields.dataField, p.regs.mb⟩ { p with cycle := .execute }) :=
  quiet_refers fun tty now => step_execute_indirect (p := p.withTeletype tty) hc ho now

theorem exists_quiet (hp : p.Coherent) (hb : p.atBoundary = false) : ∃ q, Quiet p q := by
  rcases off_boundary_cases hp hb with ⟨operand, hc, ho, hi⟩ | ⟨op, operand, hc, ho, hi⟩ |
    ⟨op, operand, hc, ho⟩
  · exact ⟨_, quiet_defer hc ho hi⟩
  · exact ⟨_, quiet_execute_direct hc ho hi⟩
  · exact ⟨_, quiet_execute_indirect hc ho⟩

/-! ## Instructions -/

/-- Quiet steps, one for each of some major states, that finish an instruction. -/
inductive Finishes : List Cycle → Processor → Processor → Prop
  | done {p : Processor} : p.atBoundary = true → Finishes [] p p
  | next {cycle : Cycle} {cycles : List Cycle} {p q r : Processor} :
    p.atBoundary = false → Quiet p q → q.cycle = cycle → Finishes cycles q r →
    Finishes (cycle :: cycles) p r

/-- The last of them is an execute cycle. -/
theorem Finishes.execute (hb : p.atBoundary = false) (hq : Quiet p q) (hc : q.cycle = .execute) :
    Finishes [.execute] p q :=
  .next hb hq hc (.done (atBoundary_of_execute hc))

/-- What has been fetched is finished by the major states after the first. -/
theorem finishes_of_fetch (hc : p.cycle = .fetch) :
    ∃ cycles q, p.current.majorStates = .fetch :: cycles ∧ Finishes cycles p q := by
  have hboundary : p.atBoundary = p.current.completesInFetch := by
    unfold atBoundary
    rw [hc]
  cases hcur : p.current with
  | memory op operand =>
    have hb : p.atBoundary = false := by
      rw [hboundary, hcur]
      rfl
    unfold Instruction.majorStates
    dsimp only
    cases hi : operand.indirect with
    | false =>
      exact ⟨_, _, rfl, .execute hb (quiet_execute_direct hc hcur hi) (cycle_refers _ _ _)⟩
    | true =>
      have hpending : p.current.pendingOperand? = some operand := by
        rw [hcur]
        rfl
      have hcycle := p.cycle_defer (operand.resolve p.fetchedFrom)
      have hmemory := (p.current_defer (operand.resolve p.fetchedFrom)).trans hcur
      have hb' : (p.defer (operand.resolve p.fetchedFrom)).atBoundary = false := by
        unfold atBoundary
        rw [hcycle, hmemory]
        rfl
      exact ⟨_, _, rfl, .next hb (quiet_defer hc hpending hi) hcycle
        (.execute hb' (quiet_execute_indirect hcycle hmemory) (cycle_refers _ _ _))⟩
  | jump operand =>
    unfold Instruction.majorStates
    dsimp only
    cases hi : operand.indirect with
    | false =>
      refine ⟨_, _, rfl, .done ?_⟩
      rw [hboundary, hcur]
      unfold Instruction.completesInFetch Instruction.pendingOperand?
      simp [hi]
    | true =>
      have hpending : p.current.pendingOperand? = some operand := by
        rw [hcur]
        exact if_pos hi
      have hb : p.atBoundary = false := by
        rw [hboundary]
        unfold Instruction.completesInFetch
        rw [hpending]
        rfl
      have hcycle := p.cycle_defer (operand.resolve p.fetchedFrom)
      refine ⟨_, _, rfl, .next hb (quiet_defer hc hpending hi) hcycle (.done ?_)⟩
      unfold atBoundary
      rw [hcycle, current_defer, hcur]
      exact hi
  | iot code =>
    refine ⟨_, _, rfl, .done ?_⟩
    rw [hboundary, hcur]
    rfl
  | operate op =>
    refine ⟨_, _, rfl, .done ?_⟩
    rw [hboundary, hcur]
    rfl

/-- How a processor can go on. -/
structure CycleStructure (p : Processor) : Prop where
  /-- An instruction that is not carried out in its fetch cycle has an operand. -/
  operand : p.cycle = .fetch → p.current.completesInFetch = false →
    ∃ operand, p.current.operand? = some operand
  /-- An execute cycle is not asked for without a memory reference. -/
  execute : ∀ now i, p.step now ≠ .error (.noExecuteCycle i)
  /-- At a boundary a step polls the teletype, and fails if the poll does. -/
  failing : p.atBoundary = true → ∀ now f, p.poll now = .error f → p.step now = .error f
  /-- An interrupt that is due after the poll takes this one step. -/
  interrupt : p.atBoundary = true → ∀ now polled, p.poll now = .ok polled →
    polled.fields.willInterrupt polled.tty.interruptRequest = true →
    p.step now = .ok (.proceed, polled.interrupt) ∧ polled.interrupt.cycle = .execute ∧
      polled.interrupt.atBoundary = true
  /-- Otherwise the step fetches an instruction, and quiet steps take it through the rest of its
  major states. -/
  instruction : p.atBoundary = true → ∀ now polled, p.poll now = .ok polled →
    polled.fields.willInterrupt polled.tty.interruptRequest = false →
    ∃ o q cycles r, p.step now = .ok (o, q) ∧ q.cycle = .fetch ∧
      q.current = .decode p.nextWord ∧
      (Instruction.decode p.nextWord).majorStates = .fetch :: cycles ∧ Finishes cycles q r
  /-- Off a boundary every step is a quiet one. -/
  between : p.atBoundary = false → ∃ q, Quiet p q

theorem cycleStructure_of_coherent (hp : p.Coherent) : CycleStructure p := by
  have hfetch {now : Time} {polled : Processor} (hb : p.atBoundary = true)
      (hpoll : p.poll now = .ok polled) :=
    (step_of_atBoundary hb now).trans (fetch_eq_of_poll hpoll)
  constructor
  · intro _ hpending
    obtain ⟨operand, ho, -⟩ := Instruction.exists_operand hpending
    exact ⟨operand, ho⟩
  · intro now i hs
    rcases ofLine_of_poll (poll_of_step_error hp hs).2 with ⟨e, he⟩ | ⟨e, he⟩
    · cases he
    · cases he
  · intro hb now f hpoll
    rw [step_of_atBoundary hb]
    unfold fetch
    rw [hpoll]
  · intro hb now polled hpoll hdue
    have hs := hfetch hb hpoll
    rw [if_pos hdue] at hs
    exact ⟨hs, rfl, rfl⟩
  · intro hb now polled hpoll hdue
    have hs := hfetch hb hpoll
    rw [hdue, if_neg Bool.false_ne_true] at hs
    have hsame := sameControl_fetch polled
    have hcycle := hsame.cycle.trans polled.cycle_loadInstruction
    have hcurrent : polled.loadInstruction.beginInstruction.2.current = .decode p.nextWord := by
      rw [hsame.current, current_loadInstruction, nextWord_of_poll hpoll]
    obtain ⟨cycles, r, hstates, hfinishes⟩ := finishes_of_fetch hcycle
    rw [hcurrent] at hstates
    exact ⟨_, _, cycles, r, hs, hcycle, hcurrent, hstates, hfinishes⟩
  · exact exists_quiet hp

/-- From power-up, whatever is done to the processor: nothing but a line of its teletype fails, and
its instructions go through their major states. -/
theorem cycle_structure (traced : Bool) (core : Core) (tty : Teletype) (calls : List Call) :
    (∃ f, (powerUp traced core tty).carryOutAll calls = .error f ∧ f.OfLine) ∨
      ∃ p, (powerUp traced core tty).carryOutAll calls = .ok p ∧ CycleStructure p := by
  have hstart : (powerUp traced core tty).Coherent := coherent_of_cycle nofun
  rcases carryOutAll_cases hstart calls with hfailed | ⟨p, hrun, hp⟩
  · exact .inl hfailed
  · exact .inr ⟨p, hrun, cycleStructure_of_coherent hp⟩

end Processor

end Pdp8
