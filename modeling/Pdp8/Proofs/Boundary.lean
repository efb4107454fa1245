import Mathlib.Tactic.SplitIfs
import Pdp8.Processor

/-!
# Pdp8.Proofs.Boundary — where one instruction ends and the next begins

A processor is at a boundary when no instruction is under way: the next step is then a fetch.  Off
a boundary it is a defer or an execute cycle, and `Coherent` is what makes sure that one of the two
is possible: every instruction that has been through a defer cycle is an indirect one.  What an
instruction does after its fetch cycle never touches the control state (`SameControl`).
-/

namespace Pdp8

/-! ## Decoding -/

/-- The first digit of a memory reference. -/
def MemoryOp.digit : MemoryOp → Nat
  | .and => 0
  | .tad => 1
  | .isz => 2
  | .dca => 3
  | .jms => 4

theorem MemoryOp.digit_lt (op : MemoryOp) : op.digit < 5 := by cases op <;> decide

namespace Instruction

/-- The first digit of a word says what kind of instruction it is. -/
theorem decode_cases (word : Word) :
    (∃ op : MemoryOp, word.toNat / 0o1000 = op.digit ∧ decode word = .memory op (.ofWord word)) ∨
      (word.toNat / 0o1000 = 5 ∧ decode word = .jump (.ofWord word)) ∨
      (word.toNat / 0o1000 = 6 ∧ decode word = .iot word) ∨
      (word.toNat / 0o1000 = 7 ∧ decode word = .operate (.ofWord word)) := by
  have hlt : word.toNat / 0o1000 < 8 := by
    have := word.isLt
    omega
  unfold decode
  rw [Word.toNat_opcode]
  generalize word.toNat / 0o1000 = n at hlt
  match n, hlt with
  | 0, _ => exact .inl ⟨.and, rfl, rfl⟩
  | 1, _ => exact .inl ⟨.tad, rfl, rfl⟩
  | 2, _ => exact .inl ⟨.isz, rfl, rfl⟩
  | 3, _ => exact .inl ⟨.dca, rfl, rfl⟩
  | 4, _ => exact .inl ⟨.jms, rfl, rfl⟩
  | 5, _ => exact .inr (.inl ⟨rfl, rfl⟩)
  | 6, _ => exact .inr (.inr (.inl ⟨rfl, rfl⟩))
  | 7, _ => exact .inr (.inr (.inr ⟨rfl, rfl⟩))

theorem decode_iot {word : Word} (h : word.toNat / 0o1000 = 6) : decode word = .iot word := by
  unfold decode
  rw [Word.toNat_opcode, h]
  rfl

theorem decode_operate {word : Word} (h : word.toNat / 0o1000 = 7) :
    decode word = .operate (.ofWord word) := by
  unfold decode
  rw [Word.toNat_opcode, h]
  rfl

/-- The codes of the memory extension are those that begin with 62. -/
theorem and_mask_eq_iff (code : Word) : code &&& 0o7700 = 0o6200 ↔ code.toNat / 64 = 0o62 := by
  have hmask : (code &&& 0o7700 : Word) = code >>> 6 <<< 6 := by
    apply BitVec.eq_of_getLsbD_eq
    intro i hi
    have hbit : (0o7700 : Word).getLsbD i = decide (6 ≤ i) := by
      revert hi i
      decide
    rw [BitVec.getLsbD_and, hbit, BitVec.getLsbD_shiftLeft, BitVec.getLsbD_ushiftRight]
    by_cases h : i < 6
    · simp [h]
    · simp [h, hi, show 6 ≤ i by omega]
  rw [hmask, ← BitVec.toNat_inj, BitVec.toNat_shiftLeft, BitVec.toNat_ushiftRight,
    Nat.shiftRight_eq_div_pow, Nat.shiftLeft_eq]
  have hlt := code.isLt
  have hval : (0o6200 : Word).toNat = 0o6200 := rfl
  omega

theorem toNat_and_seven (code : Word) : (code &&& 0o7).toNat = code.toNat % 8 := by
  rw [BitVec.toNat_and]
  exact Nat.and_two_pow_sub_one_eq_mod _ 3

/-- What is not carried out in its fetch cycle has an operand. -/
theorem exists_operand {i : Instruction} (h : i.completesInFetch = false) :
    ∃ operand, i.operand? = some operand ∧ i.pendingOperand? = some operand := by
  cases i with
  | memory op operand => exact ⟨operand, rfl, rfl⟩
  | jump operand =>
    unfold completesInFetch pendingOperand? at h
    cases hi : operand.indirect with
    | true => exact ⟨operand, rfl, if_pos hi⟩
    | false => simp [hi] at h
  | iot code => cases h
  | operate op => cases h

/-- Whether an instruction is an indirect JMP, which ends with its defer cycle. -/
def isIndirectJump : Instruction → Bool
  | .jump operand => operand.indirect
  | _ => false

end Instruction

/-! ## Boundaries -/

namespace Processor

/-- No instruction is under way. -/
def atBoundary (p : Processor) : Bool :=
  match p.cycle with
  | .idle => true
  | .fetch => p.current.completesInFetch
  | .defer => p.current.isIndirectJump
  | .execute => true

/-- The next step is a fetch. -/
def fetchesNext (p : Processor) : Bool :=
  match p.cycle with
  | .idle => true
  | .fetch => p.current.completesInFetch
  | .defer => match p.current with
    | .jump _ => true
    | _ => false
  | .execute => true

/-- What a step can be. -/
inductive NextCycle
  | fetch
  | defer (pointer : Word)
  | execute (a : Address)

/-- What the next step is, going by the last cycle and the instruction under way. -/
def nextCycle (p : Processor) : NextCycle :=
  match p.cycle with
  | .idle => .fetch
  | .execute => .fetch
  | .fetch =>
    match p.current.pendingOperand? with
    | none => .fetch
    | some operand =>
      if operand.indirect then .defer (operand.resolve p.fetchedFrom)
      else .execute ⟨p.fields.instructionField, operand.resolve p.fetchedFrom⟩
  | .defer =>
    match p.current with
    | .jump _ => .fetch
    | _ => .execute ⟨p.fields.dataField, p.regs.mb⟩

/-- Only an indirect instruction goes through a defer cycle. -/
def Coherent (p : Processor) : Prop :=
  p.cycle = .defer → ∃ operand, p.current.pendingOperand? = some operand ∧ operand.indirect = true

theorem coherent_of_cycle {p : Processor} (h : p.cycle ≠ .defer) : p.Coherent :=
  fun h' => absurd h' h

/-! ## Control state -/

/-- Two states at the same point of the same instruction. -/
structure SameControl (p q : Processor) : Prop where
  cycle : q.cycle = p.cycle
  current : q.current = p.current
  fetchedFrom : q.fetchedFrom = p.fetchedFrom

namespace SameControl

variable {p q : Processor}

theorem refl (p : Processor) : SameControl p p := ⟨rfl, rfl, rfl⟩

theorem atBoundary (h : SameControl p q) : q.atBoundary = p.atBoundary := by
  unfold Processor.atBoundary
  rw [h.cycle, h.current]

end SameControl

section Operations

variable (p : Processor)

theorem sameControl_report (events : List Event) : SameControl p (p.report events) :=
  ⟨rfl, rfl, rfl⟩

theorem sameControl_reportTrace (event : Event) : SameControl p (p.reportTrace event) := by
  unfold reportTrace
  split
  · exact p.sameControl_report [event]
  · exact .refl p

theorem SameControl.respond {p q : Processor} (h : SameControl p q) (code : Word)
    (response : IotResponse) : SameControl p (q.respond code response) := by
  cases response with
  | skip => exact ⟨h.cycle, h.current, h.fetchedFrom⟩
  | done => exact h
  | notRecognised => exact ⟨h.cycle, h.current, h.fetchedFrom⟩

theorem sameControl_transfer (code : Word) : SameControl p (p.transfer code) := by
  unfold transfer
  split_ifs
  · exact ⟨rfl, rfl, rfl⟩
  · exact ⟨rfl, rfl, rfl⟩
  · rcases p.fields.iot code p.regs.ac with ⟨response, ac, fields⟩
    refine SameControl.respond ?_ code response
    exact ⟨rfl, rfl, rfl⟩
  · rcases p.tty.iot code p.regs.ac with ⟨response, ac, tty⟩
    refine SameControl.respond ?_ code response
    exact ⟨rfl, rfl, rfl⟩

theorem sameControl_operate1 (g : Group1) : SameControl p (p.operate1 g) := by
  unfold operate1
  split
  · exact ⟨rfl, rfl, rfl⟩
  · exact ⟨rfl, rfl, rfl⟩

theorem sameControl_operate2 (g : Group2) : SameControl p (p.operate2 g).2 := by
  unfold operate2
  split_ifs
  all_goals exact ⟨rfl, rfl, rfl⟩

theorem sameControl_operate (op : Operate) : SameControl p (p.operate op).2 := by
  cases op with
  | group1 g => exact p.sameControl_operate1 g
  | group2 g => exact p.sameControl_operate2 g
  | undefined word => exact p.sameControl_report _

theorem sameControl_beginInstruction : SameControl p p.beginInstruction.2 := by
  unfold beginInstruction
  split
  · exact .refl p
  · split
    · exact .refl p
    · exact ⟨rfl, rfl, rfl⟩
  · exact p.sameControl_transfer _
  · exact p.sameControl_operate _

theorem sameControl_isz (a : Address) : SameControl p (p.isz a) := by
  unfold isz
  dsimp only
  split
  · exact ⟨rfl, rfl, rfl⟩
  · exact ⟨rfl, rfl, rfl⟩

theorem sameControl_refers (op : MemoryOp) (a : Address) : SameControl p (refers op a p) := by
  cases op with
  | isz => exact p.sameControl_isz a
  | and => exact ⟨rfl, rfl, rfl⟩
  | tad => exact ⟨rfl, rfl, rfl⟩
  | dca => exact ⟨rfl, rfl, rfl⟩
  | jms => exact ⟨rfl, rfl, rfl⟩

end Operations

/-! ## The cycles -/

/-- Where the next instruction comes from. -/
def home (p : Processor) : Address := ⟨p.fields.instructionField, p.regs.pc⟩

/-- The next instruction word. -/
def nextWord (p : Processor) : Word := p.core.peek p.home

section Cycles

variable (p : Processor)

@[simp] theorem cycle_loadInstruction : p.loadInstruction.cycle = .fetch :=
  (sameControl_reportTrace _ _).cycle

@[simp] theorem current_loadInstruction : p.loadInstruction.current = .decode p.nextWord :=
  (sameControl_reportTrace _ _).current

@[simp] theorem fetchedFrom_loadInstruction : p.loadInstruction.fetchedFrom = p.regs.pc :=
  (sameControl_reportTrace _ _).fetchedFrom

/-- A fetch ends in the fetch state, with the word decoded. -/
theorem sameControl_fetch : SameControl p.loadInstruction p.loadInstruction.beginInstruction.2 :=
  sameControl_beginInstruction _

@[simp] theorem cycle_interrupt : p.interrupt.cycle = .execute := rfl

/-- The part of a defer cycle before an indirect JMP is completed. -/
def loadPointer (a : Address) (p : Processor) : Processor :=
  if a.isAutoIndex then (p.read a).write a (Word.successor (p.core.peek a)) else p.read a

@[simp] theorem fields_loadPointer (a : Address) : (p.loadPointer a).fields = p.fields := by
  unfold loadPointer
  split <;> rfl

theorem defer_eq (pointer : Word) :
    p.defer pointer =
      (let q := loadPointer ⟨p.fields.instructionField, pointer⟩ { p with cycle := .defer }
       match p.current with
       | .jump _ => q.jump q.regs.mb
       | _ => q) := by
  unfold defer loadPointer
  dsimp only
  split_ifs <;> rfl

@[simp] theorem cycle_defer (pointer : Word) : (p.defer pointer).cycle = .defer := by
  unfold defer
  dsimp only
  split_ifs <;> split <;> rfl

@[simp] theorem current_defer (pointer : Word) : (p.defer pointer).current = p.current := by
  unfold defer
  dsimp only
  split_ifs <;> split <;> rfl

@[simp] theorem fetchedFrom_defer (pointer : Word) :
    (p.defer pointer).fetchedFrom = p.fetchedFrom := by
  unfold defer
  dsimp only
  split_ifs <;> split <;> rfl

@[simp] theorem cycle_refers (op : MemoryOp) (a : Address) :
    (refers op a { p with cycle := .execute }).cycle = .execute :=
  (sameControl_refers _ op a).cycle

end Cycles

/-! ## Steps -/

section Steps

variable {p q polled : Processor} {now : Time} {o : Outcome}

/-- Polling touches the teletype and the log only. -/
theorem poll_eq_ok_iff :
    p.poll now = .ok polled ↔
      ∃ tty events, p.tty.poll now = .ok (tty, events) ∧
        polled = { p with tty := tty, log := events.reverse ++ p.log } := by
  unfold poll
  cases h : p.tty.poll now with
  | error f => simp
  | ok r =>
    obtain ⟨tty, events⟩ := r
    simp only [Except.ok.injEq, Prod.mk.injEq]
    constructor
    · rintro rfl
      exact ⟨tty, events, ⟨rfl, rfl⟩, rfl⟩
    · rintro ⟨_, _, ⟨rfl, rfl⟩, rfl⟩
      rfl

theorem home_of_poll (h : p.poll now = .ok polled) : polled.home = p.home := by
  obtain ⟨tty, events, -, rfl⟩ := poll_eq_ok_iff.mp h
  rfl

theorem nextWord_of_poll (h : p.poll now = .ok polled) : polled.nextWord = p.nextWord := by
  obtain ⟨tty, events, -, rfl⟩ := poll_eq_ok_iff.mp h
  rfl

theorem step_eq (p : Processor) (now : Time) :
    p.step now =
      match p.nextCycle with
      | .fetch => p.fetch now
      | .defer pointer => .ok (.proceed, p.defer pointer)
      | .execute a => p.execute a := by
  unfold step nextCycle
  cases p.cycle with
  | idle => rfl
  | execute => rfl
  | fetch =>
    cases p.current.pendingOperand? with
    | none => rfl
    | some operand =>
      dsimp only
      split_ifs <;> rfl
  | defer => cases p.current <;> rfl

theorem nextCycle_eq_fetch_iff : p.nextCycle = .fetch ↔ p.fetchesNext = true := by
  unfold nextCycle fetchesNext Instruction.completesInFetch
  cases p.cycle with
  | idle => exact iff_of_true rfl rfl
  | execute => exact iff_of_true rfl rfl
  | fetch =>
    cases p.current.pendingOperand? with
    | none => exact iff_of_true rfl rfl
    | some operand =>
      dsimp only
      split_ifs <;> exact iff_of_false nofun nofun
  | defer =>
    cases p.current with
    | jump operand => exact iff_of_true rfl rfl
    | memory op operand => exact iff_of_false nofun nofun
    | iot code => exact iff_of_false nofun nofun
    | operate op => exact iff_of_false nofun nofun

theorem fetchesNext_eq_false (h : p.nextCycle ≠ .fetch) : p.fetchesNext = false :=
  Bool.eq_false_iff.mpr fun hnext => h (nextCycle_eq_fetch_iff.mpr hnext)

theorem step_of_fetchesNext (h : p.fetchesNext = true) (now : Time) :
    p.step now = p.fetch now := by
  rw [step_eq, nextCycle_eq_fetch_iff.mpr h]

theorem fetchesNext_of_atBoundary (h : p.atBoundary = true) : p.fetchesNext = true := by
  unfold atBoundary at h
  unfold fetchesNext
  cases hc : p.cycle with
  | idle => rfl
  | execute => rfl
  | fetch =>
    rw [hc] at h
    exact h
  | defer =>
    rw [hc] at h
    cases hi : p.current with
    | jump operand => rfl
    | memory op operand => rw [hi] at h; cases h
    | iot code => rw [hi] at h; cases h
    | operate op => rw [hi] at h; cases h

theorem step_of_atBoundary (h : p.atBoundary = true) (now : Time) : p.step now = p.fetch now :=
  step_of_fetchesNext (fetchesNext_of_atBoundary h) now

/-- A fetch takes an interrupt exactly when one is due after the poll. -/
theorem fetch_eq_of_poll (h : p.poll now = .ok polled) :
    p.fetch now =
      if polled.fields.willInterrupt polled.tty.interruptRequest then
        .ok (.proceed, polled.interrupt)
      else .ok polled.loadInstruction.beginInstruction := by
  unfold fetch
  rw [h]

theorem fetch_eq_ok_iff :
    p.fetch now = .ok (o, q) ↔
      ∃ polled, p.poll now = .ok polled ∧
        ((polled.fields.willInterrupt polled.tty.interruptRequest = true ∧
            o = .proceed ∧ q = polled.interrupt) ∨
          (polled.fields.willInterrupt polled.tty.interruptRequest = false ∧
            (o, q) = polled.loadInstruction.beginInstruction)) := by
  cases hp : p.poll now with
  | error f => simp [fetch, hp]
  | ok polled =>
    rw [fetch_eq_of_poll hp]
    simp only [Except.ok.injEq, exists_eq_left']
    cases polled.fields.willInterrupt polled.tty.interruptRequest with
    | true => simp [eq_comm]
    | false => simp [eq_comm]

/-- The next step is an interrupt in place of a fetch. -/
def Acknowledges (now : Time) (p : Processor) : Prop :=
  p.atBoundary = true ∧
    ∃ polled, p.poll now = .ok polled ∧ p.step now = .ok (.proceed, polled.interrupt)

/-- An interrupt is told from an instruction by the cycle it leaves behind. -/
theorem acknowledges_iff_cycle (h : p.step now = .ok (o, q)) :
    p.Acknowledges now ↔ p.atBoundary = true ∧ q.cycle = .execute := by
  constructor
  · rintro ⟨hb, polled, -, hs⟩
    rw [h] at hs
    cases hs
    exact ⟨hb, polled.cycle_interrupt⟩
  · rintro ⟨hb, hc⟩
    refine ⟨hb, ?_⟩
    have hf := h
    rw [step_of_atBoundary hb, fetch_eq_ok_iff] at hf
    obtain ⟨polled, hp, ⟨-, rfl, rfl⟩ | ⟨-, he⟩⟩ := hf
    · exact ⟨polled, hp, h⟩
    · have hq : q = polled.loadInstruction.beginInstruction.2 := congrArg Prod.snd he
      rw [hq, (sameControl_fetch polled).cycle, cycle_loadInstruction] at hc
      cases hc

/-- An interrupt is taken exactly when one is due after the poll. -/
theorem acknowledges_iff_of_poll (hb : p.atBoundary = true) (hp : p.poll now = .ok polled) :
    p.Acknowledges now ↔ polled.fields.willInterrupt polled.tty.interruptRequest = true := by
  have hs : p.step now = _ := (step_of_atBoundary hb now).trans (fetch_eq_of_poll hp)
  cases hw : polled.fields.willInterrupt polled.tty.interruptRequest with
  | true =>
    rw [hw, if_pos rfl] at hs
    rw [acknowledges_iff_cycle hs]
    exact ⟨fun _ => rfl, fun _ => ⟨hb, polled.cycle_interrupt⟩⟩
  | false =>
    rw [hw, if_neg Bool.false_ne_true] at hs
    have hc : polled.loadInstruction.beginInstruction.2.cycle = .fetch :=
      (sameControl_fetch polled).cycle.trans polled.cycle_loadInstruction
    constructor
    · intro h
      have he : polled.loadInstruction.beginInstruction.2.cycle = .execute :=
        ((acknowledges_iff_cycle hs).mp h).2
      rw [hc] at he
      cases he
    · exact nofun

theorem step_of_not_acknowledges (hb : p.atBoundary = true) (hp : p.poll now = .ok polled)
    (hno : ¬ p.Acknowledges now) : p.step now = .ok polled.loadInstruction.beginInstruction := by
  rw [acknowledges_iff_of_poll hb hp] at hno
  rw [step_of_atBoundary hb, fetch_eq_of_poll hp, if_neg hno]

/-- Only an interrupt system that is on, and not held off, takes an interrupt. -/
theorem Acknowledges.enabled (h : p.Acknowledges now) :
    p.fields.enabled = true ∧ p.fields.heldOff = false := by
  obtain ⟨hb, polled, hpoll, hs⟩ := h
  have hw := (acknowledges_iff_of_poll hb hpoll).mp ⟨hb, polled, hpoll, hs⟩
  obtain ⟨tty, events, -, rfl⟩ := poll_eq_ok_iff.mp hpoll
  unfold Extension.willInterrupt at hw
  simp only [Bool.and_eq_true, Bool.not_eq_true'] at hw
  exact ⟨hw.1.1, hw.2⟩

theorem not_acknowledges_of_disabled (h : p.fields.enabled = false) : ¬ p.Acknowledges now :=
  fun hack => Bool.false_ne_true (h.symm.trans hack.enabled.1)

/-- Off a boundary there is an indirect reference to be followed, or a memory reference to be
carried out. -/
theorem off_boundary_cases (hc : p.Coherent) (hb : p.atBoundary = false) :
    (∃ operand, p.cycle = .fetch ∧ p.current.pendingOperand? = some operand ∧
        operand.indirect = true) ∨
      (∃ op operand, p.cycle = .fetch ∧ p.current = .memory op operand ∧
        operand.indirect = false) ∨
      ∃ op operand, p.cycle = .defer ∧ p.current = .memory op operand := by
  unfold atBoundary at hb
  cases hcycle : p.cycle with
  | idle => simp [hcycle] at hb
  | execute => simp [hcycle] at hb
  | fetch =>
    rw [hcycle] at hb
    obtain ⟨operand, ho, hpending⟩ := Instruction.exists_operand hb
    cases hi : operand.indirect with
    | true => exact .inl ⟨operand, rfl, hpending, hi⟩
    | false =>
      -- a direct reference that is still pending is no jump
      cases hcur : p.current with
      | memory op operand' =>
        rw [hcur] at ho
        cases ho
        exact .inr (.inl ⟨op, operand, rfl, rfl, hi⟩)
      | jump operand' =>
        rw [hcur] at ho hpending
        cases ho
        rw [Instruction.pendingOperand?, hi] at hpending
        cases hpending
      | iot code =>
        rw [hcur] at ho
        cases ho
      | operate op =>
        rw [hcur] at ho
        cases ho
  | defer =>
    rw [hcycle] at hb
    obtain ⟨operand, ho, hi⟩ := hc hcycle
    cases hcur : p.current with
    | memory op operand' => exact .inr (.inr ⟨op, operand', rfl, rfl⟩)
    | jump operand' =>
      rw [hcur] at ho hb
      rw [Instruction.pendingOperand?, show operand'.indirect = false from hb] at ho
      cases ho
    | iot code =>
      rw [hcur] at ho
      cases ho
    | operate op =>
      rw [hcur] at ho
      cases ho

section NextCycle

variable {op : MemoryOp} {operand : Operand}

theorem nextCycle_of_indirect (hc : p.cycle = .fetch)
    (ho : p.current.pendingOperand? = some operand) (hi : operand.indirect = true) :
    p.nextCycle = .defer (operand.resolve p.fetchedFrom) := by
  unfold nextCycle
  simp only [hc, ho, hi, if_true]

theorem nextCycle_of_direct (hc : p.cycle = .fetch) (ho : p.current = .memory op operand)
    (hi : operand.indirect = false) :
    p.nextCycle = .execute ⟨p.fields.instructionField, operand.resolve p.fetchedFrom⟩ := by
  unfold nextCycle
  simp [hc, ho, Instruction.pendingOperand?, hi]

theorem nextCycle_of_deferred (hc : p.cycle = .defer) (ho : p.current = .memory op operand) :
    p.nextCycle = .execute ⟨p.fields.dataField, p.regs.mb⟩ := by
  unfold nextCycle
  simp only [hc, ho]

theorem execute_of_memory (ho : p.current = .memory op operand) (a : Address) :
    p.execute a = .ok (.proceed, refers op a { p with cycle := .execute }) := by
  unfold execute
  rw [ho]

end NextCycle

theorem nextCycle_off_boundary (hc : p.Coherent) (hb : p.atBoundary = false) :
    (∃ operand, p.cycle = .fetch ∧ p.current.pendingOperand? = some operand ∧
        operand.indirect = true ∧ p.nextCycle = .defer (operand.resolve p.fetchedFrom)) ∨
      ∃ op operand a, p.current = .memory op operand ∧ p.nextCycle = .execute a := by
  rcases off_boundary_cases hc hb with
    ⟨operand, hcycle, ho, hi⟩ | ⟨op, operand, hcycle, hcur, hi⟩ | ⟨op, operand, hcycle, hcur⟩
  · exact .inl ⟨operand, hcycle, ho, hi, nextCycle_of_indirect hcycle ho hi⟩
  · exact .inr ⟨op, operand, _, hcur, nextCycle_of_direct hcycle hcur hi⟩
  · exact .inr ⟨op, operand, _, hcur, nextCycle_of_deferred hcycle hcur⟩

/-- Off a boundary a step is a defer cycle, or the execute cycle of a memory reference. -/
theorem step_off_boundary (hc : p.Coherent) (hb : p.atBoundary = false) (now : Time) :
    (∃ operand, p.cycle = .fetch ∧ p.current.pendingOperand? = some operand ∧
        operand.indirect = true ∧
        p.step now = .ok (.proceed, p.defer (operand.resolve p.fetchedFrom))) ∨
      (∃ op operand a, p.current = .memory op operand ∧
        p.step now = .ok (.proceed, refers op a { p with cycle := .execute })) := by
  rcases nextCycle_off_boundary hc hb with
    ⟨operand, hcycle, ho, hi, hnext⟩ | ⟨op, operand, a, hcur, hnext⟩
  · refine .inl ⟨operand, hcycle, ho, hi, ?_⟩
    rw [step_eq, hnext]
  · refine .inr ⟨op, operand, a, hcur, ?_⟩
    rw [step_eq, hnext]
    exact execute_of_memory hcur a

/-- Off a boundary no step is a fetch. -/
theorem fetchesNext_off_boundary (hc : p.Coherent) (hb : p.atBoundary = false) :
    p.fetchesNext = false := by
  rcases nextCycle_off_boundary hc hb with ⟨_, -, -, -, hnext⟩ | ⟨_, _, _, -, hnext⟩
  · exact fetchesNext_eq_false (by rw [hnext]; exact nofun)
  · exact fetchesNext_eq_false (by rw [hnext]; exact nofun)

end Steps

end Processor

end Pdp8
