import Mathlib.Data.List.Basic
import Pdp8.Proofs.Architecture
import Pdp8.Proofs.Effect

/-!
# Pdp8.Proofs.Refinement — one instruction, step by step

An instruction takes up to three steps, which hand over to one another through the cycle, the
current instruction, the place it was fetched from and MB.  `instruction_refinement` says that from
any boundary at which no interrupt is taken they come to exactly one `Architecture.instruction`,
whatever the state and whatever the word that is fetched: the word may refer to its own place, to
its own pointer, or to a field that is not fitted.
-/

namespace Pdp8

namespace Processor

/-- The steps of one instruction, at the given times: a first one from a boundary, and then on
until the next boundary. -/
inductive Completes : List Time → Processor → Outcome → Processor → Prop
  | last {now : Time} {p q : Processor} {o : Outcome} :
    p.step now = .ok (o, q) → q.atBoundary = true → Completes [now] p o q
  | next {now : Time} {later : List Time} {p q r : Processor} {o : Outcome} :
    p.step now = .ok (.proceed, q) → q.atBoundary = false → Completes later q o r →
    Completes (now :: later) p o r

/-- Nothing is left open: the steps of an instruction end in one way. -/
theorem Completes.unique {times : List Time} {p q q' : Processor} {o o' : Outcome}
    (h : Completes times p o q) (h' : Completes times p o' q') : o' = o ∧ q' = q := by
  induction h generalizing o' q' with
  | last hs hq =>
    cases h' with
    | last hs' _ =>
      rw [hs] at hs'
      cases hs'
      exact ⟨rfl, rfl⟩
    | next _ _ hrest => cases hrest
  | next hs _ hrest ih =>
    cases h' with
    | last _ _ => cases hrest
    | next hs' _ hrest' =>
      rw [hs] at hs'
      cases hs'
      exact ih hrest'

/-! ## The steps after a fetch -/

section AfterFetch

variable {p : Processor} {operand : Operand} {op : MemoryOp}

theorem step_defer (hc : p.cycle = .fetch) (ho : p.current.pendingOperand? = some operand)
    (hi : operand.indirect = true) (now : Time) :
    p.step now = .ok (.proceed, p.defer (operand.resolve p.fetchedFrom)) := by
  rw [step_eq, nextCycle_of_indirect hc ho hi]

theorem step_execute_direct (hc : p.cycle = .fetch) (ho : p.current = .memory op operand)
    (hi : operand.indirect = false) (now : Time) :
    p.step now =
      .ok (.proceed,
        refers op ⟨p.fields.instructionField, operand.resolve p.fetchedFrom⟩
          { p with cycle := .execute }) := by
  rw [step_eq, nextCycle_of_direct hc ho hi]
  exact execute_of_memory ho _

theorem step_execute_indirect (hc : p.cycle = .defer) (ho : p.current = .memory op operand)
    (now : Time) :
    p.step now =
      .ok (.proceed, refers op ⟨p.fields.dataField, p.regs.mb⟩ { p with cycle := .execute }) := by
  rw [step_eq, nextCycle_of_deferred hc ho]
  exact execute_of_memory ho _

theorem atBoundary_of_execute (hc : p.cycle = .execute) : p.atBoundary = true := by
  unfold atBoundary
  rw [hc]

end AfterFetch

end Processor

/-! ## Fields that a jump overwrites -/

namespace Architecture

/-- The state with interrupts held off or not. -/
def holdOff (b : Bool) (s : Architecture) : Architecture := { s with fields.heldOff := b }

theorem goTo_holdOff (b : Bool) (target : Word) (s : Architecture) :
    (s.holdOff b).goTo target = s.goTo target := rfl

theorem follow_holdOff (b : Bool) (a : Address) (s : Architecture) :
    (s.holdOff b).follow a = ((s.follow a).1, (s.follow a).2.holdOff b) := by
  unfold follow
  split_ifs
  · rfl
  · rfl

theorem fields_follow (a : Address) (s : Architecture) : (s.follow a).2.fields = s.fields := by
  unfold follow
  split_ifs
  · rfl
  · rfl

/-- Interrupts held off make no difference to a JMS, which lets them in again. -/
theorem refer_holdOff (op : MemoryOp) (b : Bool) (a : Address) (s : Architecture)
    (h : op = .jms ∨ b = s.fields.heldOff) :
    (s.holdOff b).refer op.digit a = s.refer op.digit a := by
  rcases h with rfl | rfl
  · rfl
  · rfl

theorem operand_direct {word : Word} (h : word.getLsbD 8 = false) (home : Word)
    (s : Architecture) :
    s.operand word home = (⟨s.fields.instructionField, named word home⟩, s) := by
  unfold operand
  rw [h]
  rfl

theorem operand_indirect {word : Word} (h : word.getLsbD 8 = true) (home : Word)
    (s : Architecture) :
    s.operand word home =
      let (pointer, t) := s.follow ⟨s.fields.instructionField, named word home⟩
      (⟨t.fields.dataField, pointer⟩, t) := by
  unfold operand
  rw [h]
  rfl

end Architecture

namespace Processor

/-! ## The kinds of instruction

Here `p` has been polled, its interrupts are not due, and `start` is the state before the poll. -/

/-- The steps at these times carry out the instruction that `s` is about to execute. -/
def Performs (times : List Time) (p : Processor) (s : Architecture) : Prop :=
  ∃ q, Completes times p s.instruction.1 q ∧ q.architecture = s.instruction.2

theorem Performs.last {now : Time} {p : Processor} {r : Outcome × Processor} {s : Architecture}
    (hs : p.step now = .ok r) (hr : r.2.atBoundary = true)
    (heff : (r.1, r.2.architecture) = s.instruction) : Performs [now] p s := by
  unfold Performs
  rw [← heff]
  exact ⟨r.2, .last hs hr, rfl⟩

theorem Performs.next {now : Time} {later : List Time} {p q : Processor} {s : Architecture}
    (hs : p.step now = .ok (.proceed, q)) (hq : q.atBoundary = false) (hrest : Performs later q s) :
    Performs (now :: later) p s := by
  obtain ⟨r, hr, heff⟩ := hrest
  exact ⟨r, .next hs hq hr, heff⟩

section Kinds

variable (p : Processor)

/-- The state after the fetch, in which only a jump may already have let interrupts in again. -/
theorem architecture_fetched :
    ∃ b, p.loadInstruction.architecture = p.architecture.advance.holdOff b ∧
      ((Instruction.decode p.nextWord).isJumpClass = false → b = p.fields.heldOff) := by
  refine ⟨_, p.architecture_loadInstruction, ?_⟩
  intro h
  rw [h]
  rfl

/-- For a memory reference it matters only if it is no JMS. -/
theorem architecture_fetched_memory {op : MemoryOp} {operand : Operand}
    (hdec : Instruction.decode p.nextWord = .memory op operand) :
    ∃ b, p.loadInstruction.architecture = p.architecture.advance.holdOff b ∧
      (op = .jms ∨ b = p.fields.heldOff) := by
  obtain ⟨b, harch, hb⟩ := p.architecture_fetched
  rw [hdec] at hb
  refine ⟨b, harch, ?_⟩
  cases op
  case jms => exact .inl rfl
  all_goals exact .inr (hb rfl)

/-- The location named by the instruction that has been fetched. -/
theorem resolve_loadInstruction :
    (Operand.ofWord p.nextWord).resolve p.loadInstruction.fetchedFrom =
      Architecture.named p.nextWord p.regs.pc := by
  rw [fetchedFrom_loadInstruction, resolve_ofWord]

theorem instruction_architecture :
    p.architecture.instruction = p.architecture.advance.perform p.nextWord p.regs.pc := rfl

variable {p} {b : Bool}

/-- The state once the pointer of the next instruction has been read. -/
def throughPointer (p : Processor) : Processor :=
  loadPointer ⟨p.loadInstruction.fields.instructionField, Architecture.named p.nextWord p.regs.pc⟩
    { p.loadInstruction with cycle := .defer }

theorem architecture_throughPointer
    (harch : p.loadInstruction.architecture = p.architecture.advance.holdOff b) :
    let r := p.architecture.advance.follow
      ⟨p.fields.instructionField, Architecture.named p.nextWord p.regs.pc⟩
    p.throughPointer.regs.mb = r.1 ∧ p.throughPointer.architecture = r.2.holdOff b := by
  have hfield : p.loadInstruction.fields.instructionField = p.fields.instructionField :=
    congrArg (fun s => s.fields.instructionField) harch
  have hcycle : { p.loadInstruction with cycle := .defer }.architecture =
      p.loadInstruction.architecture := rfl
  dsimp only
  unfold throughPointer
  rw [← Prod.mk.injEq, loadPointer_follow, hcycle, harch, hfield, Architecture.follow_holdOff]

theorem defer_of_jump {operand : Operand}
    (hcurrent : p.loadInstruction.current = .jump operand) :
    p.loadInstruction.defer (Architecture.named p.nextWord p.regs.pc) =
      p.throughPointer.jump p.throughPointer.regs.mb := by
  rw [defer_eq]
  unfold throughPointer
  simp only [hcurrent]

theorem defer_of_memory {op : MemoryOp} {operand : Operand}
    (hcurrent : p.loadInstruction.current = .memory op operand) :
    p.loadInstruction.defer (Architecture.named p.nextWord p.regs.pc) = p.throughPointer := by
  rw [defer_eq]
  unfold throughPointer
  simp only [hcurrent]

variable {start : Processor} {now : Time}
variable (hs : start.step now = .ok p.loadInstruction.beginInstruction)

include hs

/-- Transfers and operate instructions end with their fetch. -/
theorem performs_in_fetch (hdigit : 6 ≤ p.nextWord.toNat / 0o1000) :
    Performs [now] start p.architecture := by
  have hcurrent := p.current_loadInstruction
  have hcycle := p.cycle_loadInstruction
  obtain ⟨b, harch, hb⟩ := p.architecture_fetched
  have hload (h : (Instruction.decode p.nextWord).isJumpClass = false) :
      p.loadInstruction.architecture = p.architecture.advance := by
    rw [harch, hb h]
    rfl
  have hboundary (h : (Instruction.decode p.nextWord).completesInFetch = true) :
      p.loadInstruction.beginInstruction.2.atBoundary = true := by
    rw [(sameControl_fetch p).atBoundary]
    unfold atBoundary
    rw [hcycle, hcurrent]
    exact h
  rcases Instruction.decode_cases p.nextWord with
    ⟨op, hd, -⟩ | ⟨hd, -⟩ | ⟨hd, hdec⟩ | ⟨hd, hdec⟩
  · have hlt := op.digit_lt
    omega
  · omega
  · rw [hdec] at hcurrent hload hboundary
    refine .last hs (hboundary rfl) ?_
    rw [instruction_architecture, ← hload rfl]
    unfold beginInstruction Architecture.perform
    rw [hcurrent, hd]
    exact congrArg (Prod.mk _) (architecture_transfer _ _)
  · rw [hdec] at hcurrent hload hboundary
    refine .last hs (hboundary rfl) ?_
    rw [instruction_architecture, ← hload rfl]
    unfold beginInstruction Architecture.perform
    rw [hcurrent, hd]
    exact architecture_operate _ _

/-- A direct JMP ends with its fetch. -/
theorem performs_jump_direct (hdigit : p.nextWord.toNat / 0o1000 = 5)
    (hdec : Instruction.decode p.nextWord = .jump (.ofWord p.nextWord))
    (hi : p.nextWord.getLsbD 8 = false) : Performs [now] start p.architecture := by
  have hcurrent := p.current_loadInstruction.trans hdec
  have hdirect : ¬ (Operand.ofWord p.nextWord).indirect = true :=
    Bool.eq_false_iff.mp hi
  obtain ⟨b, harch, -⟩ := p.architecture_fetched
  have hbegin : p.loadInstruction.beginInstruction =
      (.proceed, p.loadInstruction.jump (Architecture.named p.nextWord p.regs.pc)) := by
    unfold beginInstruction
    rw [hcurrent, ← resolve_loadInstruction]
    exact if_neg hdirect
  refine .last hs ?_ ?_
  · rw [(sameControl_fetch p).atBoundary]
    unfold atBoundary Instruction.completesInFetch
    rw [cycle_loadInstruction, hcurrent]
    exact congrArg Option.isNone (if_neg hdirect)
  · rw [instruction_architecture, hbegin]
    unfold Architecture.perform
    rw [hdigit, Architecture.operand_direct hi, architecture_jump, harch,
      Architecture.goTo_holdOff]
    rfl

omit hs in
/-- A fetch leaves an indirect JMP to be finished. -/
theorem begin_of_indirect_jump (hdec : Instruction.decode p.nextWord = .jump (.ofWord p.nextWord))
    (hi : p.nextWord.getLsbD 8 = true) :
    p.loadInstruction.beginInstruction = (.proceed, p.loadInstruction) := by
  unfold beginInstruction
  rw [p.current_loadInstruction, hdec]
  exact if_pos hi

/-- An indirect JMP ends with its defer cycle. -/
theorem performs_jump_indirect (hdigit : p.nextWord.toNat / 0o1000 = 5)
    (hdec : Instruction.decode p.nextWord = .jump (.ofWord p.nextWord))
    (hi : p.nextWord.getLsbD 8 = true) (second : Time) :
    Performs [now, second] start p.architecture := by
  have hcurrent := p.current_loadInstruction.trans hdec
  have hindirect : (Operand.ofWord p.nextWord).indirect = true := hi
  have hpending : p.loadInstruction.current.pendingOperand? = some (.ofWord p.nextWord) := by
    rw [hcurrent]
    exact if_pos hindirect
  obtain ⟨b, harch, -⟩ := p.architecture_fetched
  rw [begin_of_indirect_jump hdec hi] at hs
  refine .next hs ?_ (.last (step_defer p.cycle_loadInstruction hpending hindirect second) ?_ ?_)
  · unfold atBoundary Instruction.completesInFetch
    rw [cycle_loadInstruction, hpending]
    rfl
  · unfold atBoundary
    rw [cycle_defer, current_defer, hcurrent]
    exact hindirect
  · obtain ⟨hpointer, heff⟩ := architecture_throughPointer harch
    rw [instruction_architecture, resolve_loadInstruction, defer_of_jump hcurrent]
    unfold Architecture.perform
    rw [hdigit, Architecture.operand_indirect hi, architecture_jump, hpointer, heff,
      Architecture.goTo_holdOff]
    rfl

section Memory

variable {op : MemoryOp}
variable (hdigit : p.nextWord.toNat / 0o1000 = op.digit)
variable (hdec : Instruction.decode p.nextWord = .memory op (.ofWord p.nextWord))

omit hs in
include hdigit in
/-- What a memory reference comes to, with its operand at hand. -/
theorem instruction_of_memory :
    p.architecture.instruction =
      let (a, s) := p.architecture.advance.operand p.nextWord p.regs.pc
      (.proceed, s.refer op.digit a) := by
  rw [instruction_architecture]
  unfold Architecture.perform
  rw [hdigit]
  cases op <;> rfl

include hdec

/-- A fetch leaves a memory reference to be finished. -/
theorem pending_of_memory :
    start.step now = .ok (.proceed, p.loadInstruction) ∧
      p.loadInstruction.current = .memory op (.ofWord p.nextWord) ∧
      p.loadInstruction.atBoundary = false := by
  have hcurrent := p.current_loadInstruction.trans hdec
  refine ⟨?_, hcurrent, ?_⟩
  · rw [hs]
    unfold beginInstruction
    rw [hcurrent]
  · unfold atBoundary
    rw [cycle_loadInstruction, hcurrent]
    rfl

include hdigit

/-- A direct memory reference takes a fetch and an execute cycle. -/
theorem performs_memory_direct (hi : p.nextWord.getLsbD 8 = false) (second : Time) :
    Performs [now, second] start p.architecture := by
  obtain ⟨hfetch, hcurrent, hoff⟩ := pending_of_memory hs hdec
  obtain ⟨b, harch, hheld⟩ := p.architecture_fetched_memory hdec
  have hfield : p.loadInstruction.fields.instructionField = p.fields.instructionField :=
    congrArg (fun s => s.fields.instructionField) harch
  refine .next hfetch hoff (.last (step_execute_direct p.cycle_loadInstruction hcurrent hi second)
    (atBoundary_of_execute (cycle_refers _ _ _)) ?_)
  rw [instruction_of_memory hdigit, Architecture.operand_direct hi, architecture_refers,
    resolve_loadInstruction, hfield]
  exact congrArg (Prod.mk _)
    ((congrArg _ harch).trans (Architecture.refer_holdOff op b _ _ hheld))

/-- An indirect memory reference takes a defer cycle as well. -/
theorem performs_memory_indirect (hi : p.nextWord.getLsbD 8 = true) (second third : Time) :
    Performs [now, second, third] start p.architecture := by
  obtain ⟨hfetch, hcurrent, hoff⟩ := pending_of_memory hs hdec
  obtain ⟨b, harch, hheld⟩ := p.architecture_fetched_memory hdec
  obtain ⟨hpointer, heff⟩ := architecture_throughPointer harch
  have hpending : p.loadInstruction.current.pendingOperand? = some (.ofWord p.nextWord) := by
    rw [hcurrent]
    rfl
  have hdefer := step_defer p.cycle_loadInstruction hpending hi second
  have hcycle := p.loadInstruction.cycle_defer (Architecture.named p.nextWord p.regs.pc)
  have hsame := p.loadInstruction.current_defer (Architecture.named p.nextWord p.regs.pc)
  rw [resolve_loadInstruction, defer_of_memory hcurrent] at hdefer
  rw [defer_of_memory hcurrent] at hcycle hsame
  have hmemory := hsame.trans hcurrent
  have hoff' : p.throughPointer.atBoundary = false := by
    unfold atBoundary
    rw [hcycle, hmemory]
    rfl
  have hfield : p.throughPointer.fields.dataField =
      (p.architecture.advance.follow
        ⟨p.fields.instructionField, Architecture.named p.nextWord p.regs.pc⟩).2.fields.dataField :=
    congrArg (fun s => s.fields.dataField) heff
  refine .next hfetch hoff (.next hdefer hoff' (.last (step_execute_indirect hcycle hmemory third)
    (atBoundary_of_execute (cycle_refers _ _ _)) ?_))
  rw [instruction_of_memory hdigit, Architecture.operand_indirect hi, architecture_refers,
    hpointer, hfield]
  have hheld' : op = .jms ∨ b =
      (p.architecture.advance.follow
        ⟨p.fields.instructionField, Architecture.named p.nextWord p.regs.pc⟩).2.fields.heldOff := by
    rw [Architecture.fields_follow]
    exact hheld
  exact congrArg (Prod.mk _)
    ((congrArg _ heff).trans (Architecture.refer_holdOff op b _ _ hheld'))

end Memory

end Kinds

/-- Whatever the word, its steps carry it out. -/
theorem performs_of_fetch {p start : Processor} {now : Time} {later : List Time}
    (hs : start.step now = .ok p.loadInstruction.beginInstruction)
    (hlen : later.length + 1 = Architecture.cycles p.nextWord) :
    Performs (now :: later) start p.architecture := by
  unfold Architecture.cycles at hlen
  rcases Instruction.decode_cases p.nextWord with
    ⟨op, hd, hdec⟩ | ⟨hd, hdec⟩ | ⟨hd, hdec⟩ | ⟨hd, hdec⟩
  · have hlt := op.digit_lt
    rw [hd, if_neg (show ¬ 6 ≤ op.digit by omega), if_neg (show op.digit ≠ 5 by omega)] at hlen
    cases hi : p.nextWord.getLsbD 8 with
    | false =>
      rw [hi, Bool.toNat_false] at hlen
      obtain ⟨t, rfl⟩ := List.length_eq_one_iff.mp (show later.length = 1 by omega)
      exact performs_memory_direct hs hd hdec hi t
    | true =>
      rw [hi, Bool.toNat_true] at hlen
      obtain ⟨t, t', rfl⟩ := List.length_eq_two.mp (show later.length = 2 by omega)
      exact performs_memory_indirect hs hd hdec hi t t'
  · rw [hd, if_neg (by omega), if_pos rfl] at hlen
    cases hi : p.nextWord.getLsbD 8 with
    | false =>
      rw [hi, Bool.toNat_false] at hlen
      obtain rfl := List.length_eq_zero_iff.mp (show later.length = 0 by omega)
      exact performs_jump_direct hs hd hdec hi
    | true =>
      rw [hi, Bool.toNat_true] at hlen
      obtain ⟨t, rfl⟩ := List.length_eq_one_iff.mp (show later.length = 1 by omega)
      exact performs_jump_indirect hs hd hdec hi t
  · rw [hd, if_pos (by omega)] at hlen
    obtain rfl := List.length_eq_zero_iff.mp (show later.length = 0 by omega)
    exact performs_in_fetch hs (by omega)
  · rw [hd, if_pos (by omega)] at hlen
    obtain rfl := List.length_eq_zero_iff.mp (show later.length = 0 by omega)
    exact performs_in_fetch hs (by omega)

/-- From a boundary at which no interrupt is taken, the steps up to the next boundary carry out one
instruction, the one at IF:PC, and there are as many of them as the instruction has cycles. -/
theorem instruction_refinement {p : Processor} {now : Time} {later : List Time} {tty : Teletype}
    {events : List Event} (hb : p.atBoundary = true) (hno : ¬ p.Acknowledges now)
    (hpoll : p.tty.poll now = .ok (tty, events))
    (hlen : later.length + 1 = Architecture.cycles p.nextWord) :
    let s : Architecture := { p.architecture with tty := tty }
    ∃ q, Completes (now :: later) p s.instruction.1 q ∧ q.architecture = s.instruction.2 := by
  have hp := poll_eq_ok_iff.mpr ⟨tty, events, hpoll, rfl⟩
  have hs := (step_of_atBoundary hb now).trans (fetch_eq_of_poll hp)
  rw [acknowledges_iff_of_poll hb hp] at hno
  rw [if_neg hno] at hs
  exact performs_of_fetch hs hlen

/-- An indirect TAD by way of location 0010, which takes three steps. -/
theorem instruction_refinement_autoIndex :
    let tty : Teletype := .powerUp 10 .unconnected .unconnected
    let p := powerUp false ((Core.blank 1).write .zero 0o1410) tty
    p.atBoundary = true ∧ ¬ p.Acknowledges 0 ∧ p.tty.poll 0 = .ok (tty, []) ∧
      [1, 2].length + 1 = Architecture.cycles p.nextWord ∧
      ∃ q, Completes [0, 1, 2] p p.architecture.instruction.1 q ∧
        q.architecture = p.architecture.instruction.2 := by
  intro tty p
  have hb : p.atBoundary = true := rfl
  have hpoll : p.tty.poll 0 = .ok (tty, []) := rfl
  have hno : ¬ p.Acknowledges 0 := by
    rw [acknowledges_iff_of_poll hb (poll_eq_ok_iff.mpr ⟨tty, [], hpoll, rfl⟩)]
    exact Bool.false_ne_true
  have hword : p.nextWord = 0o1410 := by
    have hpeek := Core.peek_write (Core.blank 1) .zero .zero 0o1410
    rw [if_pos ⟨rfl, rfl⟩] at hpeek
    exact hpeek
  have hlen : [1, 2].length + 1 = Architecture.cycles p.nextWord := by
    rw [hword]
    rfl
  exact ⟨hb, hno, hpoll, hlen, instruction_refinement hb hno hpoll hlen⟩

end Processor

end Pdp8
