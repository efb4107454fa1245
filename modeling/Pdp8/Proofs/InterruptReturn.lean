import Pdp8.Proofs.History

/-!
# Pdp8.Proofs.InterruptReturn — a service routine goes back to where it came from

An interrupt saves the fields and PC, and turns interrupts off.  As long as the service routine
executes no ION, interrupts stay off and the fields stay saved (`Serving`).  It ends with RMF, ION
and an indirect JMP through location 0: four steps, and a state for the processor to be in before
each of them.  The ION comes into effect with the fetch of the JMP, so nothing can come between.
-/

namespace Pdp8

open Instruction

namespace Processor

variable {p q r : Processor} {now : Time} {o : Outcome}

/-! ## Entry -/

/-- An interrupt writes PC to location 0 of field 0, and nothing else. -/
theorem peek_interrupt (h : p.core.isFitted 0 = true) (a : Address) :
    p.interrupt.core.peek a = if a = .zero then p.regs.pc else p.core.peek a := by
  rw [core_interrupt, Core.peek_write]
  by_cases ha : a = .zero
  · rw [if_pos ⟨ha, h⟩, if_pos ha]
  · rw [if_neg (fun h' => ha h'.1), if_neg ha]

/-- What an interrupt leaves for the service routine to find. -/
structure Serving (p r : Processor) : Prop where
  sound : r.Sound
  enabled : r.fields.enabled = false
  enabling : r.fields.enabling = false
  savedData : r.fields.savedDataField = p.fields.dataField
  savedInstruction : r.fields.savedInstructionField = p.fields.instructionField

theorem serving_of_interrupted (hi : Interrupted now p q) : Serving p q := by
  obtain ⟨polled, hpoll, rfl⟩ := hi.eq
  obtain ⟨tty, events, -, rfl⟩ := poll_eq_ok_iff.mp hpoll
  refine ⟨sound_of_atBoundary rfl, ?_, ?_, ?_, ?_⟩
  all_goals rw [fields_interrupt]; rfl

/-- A step of the service routine that is no ION keeps all of it, and is no interrupt. -/
theorem Serving.step (hr : Serving p r) (hs : r.step now = .ok (o, q))
    (hion : ∀ place, r.happening q ≠ .fetched place ion) :
    Serving p q ∧ r.happening q ≠ .acknowledged := by
  obtain ⟨hq, hi | hf | hc⟩ := step_cases hr.sound hs
  · exact absurd hi.acknowledges (not_acknowledges_of_disabled hr.enabled)
  · have hh := happening_fetched hf
    have hword : r.nextWord ≠ ion := fun hw => hion r.home (by rw [hh, hw])
    have he := hf.interrupts
    rw [hh]
    refine ⟨⟨hq, ?_, ?_, ?_, ?_⟩, nofun⟩
    · rw [he.enabled, hr.enabling, Bool.and_false]
    · rw [he.enabling, hr.enabling, decide_eq_false hword, Bool.and_false, Bool.or_false]
    · rw [he.saved.data, hr.savedData]
    · rw [he.saved.instruction, hr.savedInstruction]
  · have he := hc.interrupts
    rw [happening_continued hc]
    refine ⟨⟨hq, ?_, ?_, ?_, ?_⟩, nofun⟩
    · rw [he.enabled, hr.enabled]
    · rw [he.enabling, hr.enabling]
    · rw [he.saved.data, hr.savedData]
    · rw [he.saved.instruction, hr.savedInstruction]

/-- However long it runs, and whatever requests come in. -/
theorem serving_of_run {h : List Happening} (hq : Serving p q) (hrun : Run q h r)
    (hion : ∀ place, .fetched place ion ∉ h) : Serving p r ∧ .acknowledged ∉ h := by
  induction hrun with
  | start => exact ⟨hq, List.not_mem_nil⟩
  | step _ hs ih =>
    obtain ⟨hr, hno⟩ := ih fun place hmem => hion place (List.mem_cons_of_mem _ hmem)
    obtain ⟨hr', hno'⟩ := hr.step hs fun place he => hion place (he ▸ List.mem_cons_self)
    refine ⟨hr', ?_⟩
    rw [List.mem_cons]
    rintro (he | hmem)
    · exact hno' he.symm
    · exact hno hmem
  | request _ ih =>
    obtain ⟨hr, hno⟩ := ih fun place hmem => hion place (List.mem_cons_of_mem _ hmem)
    refine ⟨⟨⟨hr.sound.coherent, hr.sound.released⟩, hr.enabled, hr.enabling, hr.savedData,
      hr.savedInstruction⟩, ?_⟩
    rw [List.mem_cons]
    rintro (he | hmem)
    · cases he
    · exact hno hmem

/-! ## The way back

The interrupted program was at `pc` in the two fields when the interrupt came, and the service
routine has left `link` and `ac` when it comes to its RMF, which is at `rmf` in field 0. -/

/-- What there is to go back to. -/
structure WayBack where
  instructionField : FieldNumber
  dataField : FieldNumber
  pc : Word
  link : Bool
  ac : Word
  rmf : Word

/-- What RMF, ION and the fetch of the JMP leave alone. -/
structure OnWayBack (x : WayBack) (s : Processor) : Prop where
  zero : s.core.peek .zero = x.pc
  rmf : s.core.peek ⟨0, x.rmf⟩ = 0o6244
  ion : s.core.peek ⟨0, x.rmf + 1⟩ = ion
  jump : s.core.peek ⟨0, x.rmf + 2⟩ = 0o5400
  field : s.fields.instructionField = 0
  link : s.regs.link = x.link
  ac : s.regs.ac = x.ac

/-- RMF comes next. -/
structure AtRmf (x : WayBack) (s : Processor) : Prop extends OnWayBack x s where
  atBoundary : s.atBoundary = true
  pc : s.regs.pc = x.rmf
  enabled : s.fields.enabled = false
  enabling : s.fields.enabling = false
  savedData : s.fields.savedDataField = x.dataField
  savedInstruction : s.fields.savedInstructionField = x.instructionField

/-- ION comes next: the fields have been restored, the instruction field for after the jump. -/
structure AtIon (x : WayBack) (s : Processor) : Prop extends OnWayBack x s where
  atBoundary : s.atBoundary = true
  pc : s.regs.pc = x.rmf + 1
  enabled : s.fields.enabled = false
  enabling : s.fields.enabling = false
  dataField : s.fields.dataField = x.dataField
  fieldAfterJump : s.fields.fieldAfterJump = x.instructionField

/-- JMP I 0 comes next: interrupts come on with its fetch. -/
structure AtJump (x : WayBack) (s : Processor) : Prop extends OnWayBack x s where
  atBoundary : s.atBoundary = true
  pc : s.regs.pc = x.rmf + 2
  enabled : s.fields.enabled = false
  enabling : s.fields.enabling = true
  dataField : s.fields.dataField = x.dataField
  fieldAfterJump : s.fields.fieldAfterJump = x.instructionField

/-- The defer cycle of the JMP comes next. -/
structure AtDefer (x : WayBack) (s : Processor) : Prop extends OnWayBack x s where
  cycle : s.cycle = .fetch
  current : s.current = .jump (.ofWord 0o5400)
  enabled : s.fields.enabled = true
  dataField : s.fields.dataField = x.dataField
  fieldAfterJump : s.fields.fieldAfterJump = x.instructionField

/-- The interrupted program goes on. -/
structure Returned (x : WayBack) (s : Processor) : Prop where
  atBoundary : s.atBoundary = true
  pc : s.regs.pc = x.pc
  instructionField : s.fields.instructionField = x.instructionField
  fieldAfterJump : s.fields.fieldAfterJump = x.instructionField
  dataField : s.fields.dataField = x.dataField
  enabled : s.fields.enabled = true
  link : s.regs.link = x.link
  ac : s.regs.ac = x.ac

section Stages

variable {x : WayBack} {s : Processor}

theorem OnWayBack.of_architecture (h : OnWayBack x s)
    (hmemory : q.core.peek = s.core.peek)
    (hfield : q.fields.instructionField = s.fields.instructionField)
    (hlac : q.architecture.lac = s.architecture.lac) : OnWayBack x q := by
  have hlink := congrArg BitVec.msb hlac
  have hac := congrArg (BitVec.setWidth 12) hlac
  rw [q.lac_architecture, s.lac_architecture, LinkAc.msb_toBits, LinkAc.msb_toBits] at hlink
  rw [q.lac_architecture, s.lac_architecture, LinkAc.setWidth_toBits, LinkAc.setWidth_toBits] at hac
  exact ⟨(congrFun hmemory _).trans h.zero, (congrFun hmemory _).trans h.rmf,
    (congrFun hmemory _).trans h.ion, (congrFun hmemory _).trans h.jump, hfield.trans h.field,
    hlink.trans h.link, hac.trans h.ac⟩

theorem OnWayBack.nextWord (h : OnWayBack x s) {n word : Word} (hpc : s.regs.pc = n)
    (hword : s.core.peek ⟨0, n⟩ = word) : s.nextWord = word := by
  unfold Processor.nextWord home
  rw [h.field, hpc]
  exact hword

/-- With interrupts off, a word that only changes the fields does that, and leads to the next. -/
theorem OnWayBack.step_fields {n word : Word} (change : Extension → Extension)
    (h : OnWayBack x s) (hb : s.atBoundary = true) (hoff : s.fields.enabled = false)
    (hpc : s.regs.pc = n) (hword : s.core.peek ⟨0, n⟩ = word)
    (hone : Architecture.cycles word = 1)
    (hchange : ∀ a : Architecture, (a.perform word n).2 = { a with fields := change a.fields })
    (hfield : (change s.fields.latch).instructionField = s.fields.instructionField)
    (hs : s.step now = .ok (o, q)) :
    OnWayBack x q ∧ q.atBoundary = true ∧ q.regs.pc = n + 1 ∧ q.fields = change s.fields.latch ∧
      s.happening q ≠ .acknowledged := by
  have hnext := h.nextWord hpc hword
  have hno : ¬ s.Acknowledges now := not_acknowledges_of_disabled hoff
  obtain ⟨hh, hq, tty, -, -, heff⟩ := architecture_of_step hb hno (by rw [hnext]; exact hone) hs
  rw [hnext, hpc, hchange] at heff
  have hfields : q.fields = change s.fields.latch := congrArg Architecture.fields heff
  have hmemory : q.core.peek = s.core.peek := congrArg Architecture.memory heff
  have hlac : q.architecture.lac = s.architecture.lac := by
    rw [heff]
    rfl
  have hadvance : q.regs.pc = s.regs.pc + 1 := congrArg Architecture.pc heff
  refine ⟨h.of_architecture hmemory (by rw [hfields, hfield]) hlac, hq, ?_, hfields, ?_⟩
  · rw [hadvance, hpc]
  · rw [hh]
    exact nofun

/-- RMF restores the fields. -/
theorem AtRmf.step (h : AtRmf x s) (hs : s.step now = .ok (o, q)) :
    AtIon x q ∧ s.happening q ≠ .acknowledged := by
  obtain ⟨hway, hq, hpc, hfields, hno⟩ := h.toOnWayBack.step_fields (fun e => (e.perform .rmf 0).2)
    h.atBoundary h.enabled h.pc h.rmf rfl (fun _ => rfl) rfl hs
  refine ⟨⟨hway, hq, hpc, ?_, ?_, ?_, ?_⟩, hno⟩
  · exact (congrArg Extension.enabled hfields).trans h.enabling
  · exact (congrArg Extension.enabling hfields).trans h.enabling
  · exact (congrArg Extension.dataField hfields).trans h.savedData
  · exact (congrArg Extension.fieldAfterJump hfields).trans h.savedInstruction

/-- ION is not in effect yet when the JMP is fetched. -/
theorem AtIon.step (h : AtIon x s) (hs : s.step now = .ok (o, q)) :
    AtJump x q ∧ s.happening q ≠ .acknowledged := by
  obtain ⟨hway, hq, hpc, hfields, hno⟩ := h.toOnWayBack.step_fields Extension.interruptOn
    h.atBoundary h.enabled h.pc h.ion rfl (fun _ => rfl) rfl hs
  refine ⟨⟨hway, hq, ?_, ?_, ?_, ?_, ?_⟩, hno⟩
  · rw [hpc, BitVec.add_assoc]
    rfl
  · exact (congrArg Extension.enabled hfields).trans h.enabling
  · exact congrArg Extension.enabling hfields
  · exact (congrArg Extension.dataField hfields).trans h.dataField
  · exact (congrArg Extension.fieldAfterJump hfields).trans h.fieldAfterJump

/-- The fetch of the JMP brings interrupts on, and leaves the pointer for the defer cycle. -/
theorem AtJump.step (h : AtJump x s) (hs : s.step now = .ok (o, q)) :
    AtDefer x q ∧ s.happening q ≠ .acknowledged := by
  have hword := h.nextWord h.pc h.jump
  have hf := fetched_of_step h.atBoundary (not_acknowledges_of_disabled h.enabled) hs
  obtain ⟨polled, hpoll, hq⟩ := hf.eq
  obtain ⟨tty, events, -, rfl⟩ := poll_eq_ok_iff.mp hpoll
  generalize hp : { s with tty := tty, log := events.reverse ++ s.log } = polled at hq
  have hword' : polled.nextWord = 0o5400 := by
    rw [← hword, ← hp]
    rfl
  have hdec : Instruction.decode polled.nextWord = .jump (.ofWord polled.nextWord) := by
    rw [hword']
    rfl
  rw [begin_of_indirect_jump hdec (by rw [hword']; rfl)] at hq
  dsimp only at hq
  have heff := polled.architecture_loadInstruction
  rw [hdec, ← hq] at heff
  have hfields : q.fields = { s.fields.latch with heldOff := false } := by
    refine (congrArg Architecture.fields heff).trans ?_
    rw [← hp]
    rfl
  have hmemory : q.core.peek = s.core.peek := by
    refine (congrArg Architecture.memory heff).trans ?_
    rw [← hp]
    rfl
  have hlac : q.architecture.lac = s.architecture.lac := by
    refine (congrArg Architecture.lac heff).trans ?_
    rw [← hp]
    rfl
  have hfield : q.fields.instructionField = s.fields.instructionField := by
    rw [hfields]
    rfl
  rw [happening_fetched hf]
  refine ⟨⟨h.of_architecture hmemory hfield hlac, ?_, ?_, ?_, ?_, ?_⟩, nofun⟩
  · rw [hq, cycle_loadInstruction]
  · rw [hq, current_loadInstruction, hdec, hword']
  · exact (congrArg Extension.enabled hfields).trans h.enabling
  · exact (congrArg Extension.dataField hfields).trans h.dataField
  · exact (congrArg Extension.fieldAfterJump hfields).trans h.fieldAfterJump

/-- The pointer is read in field 0, and the jump changes to the other field. -/
theorem AtDefer.step (h : AtDefer x s) (hs : s.step now = .ok (o, q)) :
    Returned x q ∧ s.happening q ≠ .acknowledged := by
  have hpending : s.current.pendingOperand? = some (.ofWord 0o5400) := by
    rw [h.current]
    rfl
  have hoff : s.atBoundary = false := by
    unfold atBoundary Instruction.completesInFetch
    rw [h.cycle, hpending]
    rfl
  have hdefer := step_defer h.cycle hpending rfl now
  have hplace : (⟨s.fields.instructionField, (Operand.ofWord 0o5400).resolve s.fetchedFrom⟩ :
      Address) = .zero := by
    rw [h.field]
    rfl
  have hno : s.happening q ≠ .acknowledged := by
    unfold happening
    rw [hoff]
    exact nofun
  rw [hs, defer_eq, hplace] at hdefer
  simp only [h.current] at hdefer
  cases hdefer
  exact ⟨⟨rfl, h.zero, h.fieldAfterJump, h.fieldAfterJump, h.dataField, h.enabled, h.link, h.ac⟩,
    hno⟩

/-! ### The whole way

A request from outside changes nothing that matters here. -/

/-- The state after so many steps of the way back. -/
def Stage (x : WayBack) (s : Processor) : Nat → Prop
  | 0 => AtRmf x s
  | 1 => AtIon x s
  | 2 => AtJump x s
  | 3 => AtDefer x s
  | _ => Returned x s

theorem OnWayBack.request (h : OnWayBack x s) : OnWayBack x (s.onFields Extension.request) :=
  ⟨h.zero, h.rmf, h.ion, h.jump, h.field, h.link, h.ac⟩

theorem Stage.request {n : Nat} (h : Stage x s n) :
    Stage x (s.onFields Extension.request) n := by
  match n, h with
  | 0, h =>
    exact ⟨h.toOnWayBack.request, h.atBoundary, h.pc, h.enabled, h.enabling, h.savedData,
      h.savedInstruction⟩
  | 1, h =>
    exact ⟨h.toOnWayBack.request, h.atBoundary, h.pc, h.enabled, h.enabling, h.dataField,
      h.fieldAfterJump⟩
  | 2, h =>
    exact ⟨h.toOnWayBack.request, h.atBoundary, h.pc, h.enabled, h.enabling, h.dataField,
      h.fieldAfterJump⟩
  | 3, h =>
    exact ⟨h.toOnWayBack.request, h.cycle, h.current, h.enabled, h.dataField, h.fieldAfterJump⟩
  | n + 4, h =>
    exact ⟨h.atBoundary, h.pc, h.instructionField, h.fieldAfterJump, h.dataField, h.enabled,
      h.link, h.ac⟩

theorem Stage.step {n : Nat} (h : Stage x s n) (hn : n < 4) (hs : s.step now = .ok (o, q)) :
    Stage x q (n + 1) ∧ s.happening q ≠ .acknowledged := by
  match n, h, hn with
  | 0, h, _ => exact AtRmf.step h hs
  | 1, h, _ => exact AtIon.step h hs
  | 2, h, _ => exact AtJump.step h hs
  | 3, h, _ => exact AtDefer.step h hs

/-- The steps of a history, requests from outside not counted. -/
def stepCount (h : List Happening) : Nat := h.countP (· ≠ .requested)

theorem happening_ne_requested (s q : Processor) : s.happening q ≠ .requested := by
  unfold happening
  split_ifs <;> exact nofun

theorem stepCount_happening (s q : Processor) (t : List Happening) :
    stepCount (s.happening q :: t) = stepCount t + 1 :=
  List.countP_cons_of_pos (by simpa using happening_ne_requested s q)

/-- A run goes on with the steps of an instruction. -/
theorem exists_run_of_completes {times : List Time} {start : Processor} {t : List Happening}
    (hc : Completes times s o q) (hrun : Run start t s) :
    ∃ t', Run start t' q ∧ stepCount t' = stepCount t + times.length := by
  induction hc generalizing t with
  | last hs _ => exact ⟨_, hrun.step hs, stepCount_happening _ _ t⟩
  | next hs _ _ ih =>
    obtain ⟨t', hrun', hcount⟩ := ih (hrun.step hs)
    refine ⟨t', hrun', ?_⟩
    rw [hcount, stepCount_happening, List.length_cons]
    omega

/-- Up to the fourth step there is no interrupt, whatever requests come in. -/
theorem stage_of_run {t : List Happening} (h : AtRmf x s) (hrun : Run s t q)
    (hlen : stepCount t ≤ 4) : Stage x q (stepCount t) ∧ .acknowledged ∉ t := by
  induction hrun with
  | start => exact ⟨h, List.not_mem_nil⟩
  | @step t p q now o _ hs ih =>
    rw [stepCount_happening] at hlen ⊢
    obtain ⟨hstage, hno⟩ := ih (by omega)
    obtain ⟨hnext, hno'⟩ := hstage.step (by omega) hs
    refine ⟨hnext, ?_⟩
    rw [List.mem_cons]
    rintro (he | hmem)
    · exact hno' he.symm
    · exact hno hmem
  | @request t p _ ih =>
    have hcount : stepCount (.requested :: t) = stepCount t :=
      List.countP_cons_of_neg (by simp)
    rw [hcount] at hlen ⊢
    obtain ⟨hstage, hno⟩ := ih hlen
    refine ⟨hstage.request, ?_⟩
    rw [List.mem_cons]
    rintro (he | hmem)
    · cases he
    · exact hno hmem

end Stages

/-- The way back from the RMF that `r` has come to, for an interrupt that came at `p`. -/
def wayBack (p r : Processor) : WayBack where
  instructionField := p.fields.instructionField
  dataField := p.fields.dataField
  pc := p.regs.pc
  link := r.regs.link
  ac := r.regs.ac
  rmf := r.regs.pc

/-- An interrupt and the return from it are inverse.  The interrupt `p` to `q` changes no word but
0.0000.  After any run from `q` to an RMF, ION and JMP I 0 in field 0, with no ION before and 0.0000
as the interrupt left it, no interrupt has been taken and the saved fields are still those of `p`;
whatever requests come in, the next four steps are possible if the teletype does not fail, are no
interrupts, and lead back to where `p` was, with interrupts on and L.AC as the routine left it. -/
theorem interrupt_return {h : List Happening} (hack : p.Acknowledges now)
    (hentry : p.step now = .ok (o, q)) (hfit : p.core.isFitted 0 = true) (hrun : Run q h r)
    (hquiet : ∀ place, .fetched place ion ∉ h) (hzero : r.core.peek .zero = q.core.peek .zero)
    (hb : r.atBoundary = true) (hfield : r.fields.instructionField = 0)
    (hrmf : r.core.peek ⟨0, r.regs.pc⟩ = 0o6244) (hion : r.core.peek ⟨0, r.regs.pc + 1⟩ = ion)
    (hjump : r.core.peek ⟨0, r.regs.pc + 2⟩ = 0o5400) :
    (∀ a, q.core.peek a = if a = .zero then p.regs.pc else p.core.peek a) ∧
      .acknowledged ∉ h ∧ r.fields.savedInstructionField = p.fields.instructionField ∧
      r.fields.savedDataField = p.fields.dataField ∧
      ∀ t s, Run r t s → stepCount t ≤ 4 →
        .acknowledged ∉ t ∧
          (∀ later tty events, s.tty.poll later = .ok (tty, events) →
            ∃ o s', s.step later = .ok (o, s')) ∧
          (stepCount t = 4 → Returned (wayBack p r) s) := by
  obtain ⟨polled, hpoll, hs⟩ := hack.2
  rw [hs] at hentry
  cases hentry
  have hserving := serving_of_interrupted ⟨hack.1, hack, polled, hpoll, rfl⟩
  obtain ⟨hr, hno⟩ := serving_of_run hserving hrun hquiet
  obtain ⟨tty, events, -, rfl⟩ := poll_eq_ok_iff.mp hpoll
  have hpeek := peek_interrupt (p := { p with tty := tty, log := events.reverse ++ p.log }) hfit
  have hpc : r.core.peek .zero = p.regs.pc := hzero.trans ((hpeek .zero).trans (if_pos rfl))
  have hway : AtRmf (wayBack p r) r :=
    ⟨⟨hpc, hrmf, hion, hjump, hfield, rfl, rfl⟩, hb, rfl, hr.enabled, hr.enabling, hr.savedData,
      hr.savedInstruction⟩
  refine ⟨hpeek, hno, hr.savedInstruction, hr.savedData, ?_⟩
  intro t s ht hlen
  obtain ⟨hstage, hno'⟩ := stage_of_run hway ht hlen
  refine ⟨hno', ?_, ?_⟩
  · intro later tty' events' hpoll'
    exact exists_step (sound_of_run hr.sound ht) hpoll'
  · intro hfour
    rw [hfour] at hstage
    exact hstage

/-- At 1.0200 with data field 2, interrupts on and a request waiting. -/
def interruptedAt (core : Core) : Processor :=
  { powerUp false core (.powerUp 10 .unconnected .unconnected) with
    regs := { Registers.zero with pc := 0o200 }
    fields :=
      { Extension.powerUp with
        instructionField := 1
        fieldAfterJump := 1
        dataField := 2
        enabled := true
        requested := true } }

/-- The service routine increments AC, and another request comes in before its RMF. -/
theorem interrupt_return_increment :
    ∃ core r t s, (interruptedAt core).Acknowledges 0 ∧
      Run (interruptedAt core).interrupt [.requested, .fetched ⟨0, 1⟩ 0o7001] r ∧
      r.regs.ac = 1 ∧ Run r t s ∧ stepCount t = 4 ∧ .acknowledged ∉ t ∧
      Returned (wayBack (interruptedAt core) r) s := by
  obtain ⟨core, hfit, hiac, hrmf, hion, hjump⟩ : ∃ core : Core, core.isFitted 0 = true ∧
      core.peek ⟨0, 1⟩ = 0o7001 ∧ core.peek ⟨0, 2⟩ = 0o6244 ∧ core.peek ⟨0, 3⟩ = ion ∧
      core.peek ⟨0, 4⟩ = 0o5400 := by
    refine ⟨((((Core.blank 3).write ⟨0, 1⟩ 0o7001).write ⟨0, 2⟩ 0o6244).write ⟨0, 3⟩ ion).write
      ⟨0, 4⟩ 0o5400, ?_⟩
    simp [Core.peek_write, Core.isFitted, Core.blank, Core.maxFields]
  obtain ⟨hack, hentry⟩ := acknowledges_of_architecture (p := interruptedAt core) 0 rfl rfl rfl rfl
  have harch := (interruptedAt core).architecture_interrupt
  have hroutine (n : Word) (hn : n ≠ 0) :
      (interruptedAt core).architecture.interrupt.memory ⟨0, n⟩ = core.peek ⟨0, n⟩ := by
    rw [← harch]
    exact (peek_interrupt hfit ⟨0, n⟩).trans (if_neg fun h => hn (congrArg Address.location h))
  replace hiac := (hroutine 1 (by decide)).trans hiac
  replace hrmf := (hroutine 2 (by decide)).trans hrmf
  replace hion := (hroutine 3 (by decide)).trans hion
  replace hjump := (hroutine 4 (by decide)).trans hjump
  -- the service routine
  obtain ⟨p, hrun₀, hb₀, hp⟩ := exists_run_of_quiet 0 .start rfl harch rfl (.inl rfl) hiac rfl
  obtain ⟨r, hrun, hb, hr⟩ := exists_run_of_request hrun₀ hb₀ hp
  have hquiet (place : Address) :
      Happening.fetched place ion ∉ [.requested, .fetched ⟨0, 1⟩ 0o7001] := by
    simp [ion]
  have hpeek : r.core.peek = (interruptedAt core).architecture.interrupt.memory :=
    congrArg Architecture.memory hr
  have hzero : r.core.peek .zero = (interruptedAt core).interrupt.core.peek .zero := by
    rw [hpeek, ← harch]
    rfl
  have hfield : r.fields.instructionField = 0 := congrArg (·.fields.instructionField) hr
  have hpc : r.regs.pc = 2 := congrArg Architecture.pc hr
  have hlac : r.architecture.lac = Architecture.operate1 0o7001 (BitVec.cons false 0) :=
    congrArg Architecture.lac hr
  have hac : r.regs.ac = 1 := by
    rw [← r.ac_architecture, Architecture.ac, hlac]
    decide
  obtain ⟨-, -, -, -, hreturn⟩ := interrupt_return hack hentry hfit hrun hquiet hzero hb hfield
    (by rw [hpeek, hpc]; exact hrmf) (by rw [hpeek, hpc]; exact hion)
    (by rw [hpeek, hpc]; exact hjump)
  -- the way back
  obtain ⟨p₁, hrun₁, hb₁, hp₁⟩ := exists_run_of_quiet 0 .start hb hr rfl (.inl rfl) hrmf rfl
  obtain ⟨p₂, hrun₂, hb₂, hp₂⟩ := exists_run_of_quiet 0 hrun₁ hb₁ hp₁ rfl (.inl rfl) hion rfl
  have hno : ¬ p₂.Acknowledges 0 :=
    not_acknowledges_of_disabled (congrArg (·.fields.enabled) hp₂)
  have hnext : p₂.nextWord = 0o5400 := (congrArg (fun s => s.memory s.home) hp₂).trans hjump
  have hpoll : p₂.tty.poll 0 = .ok (p₂.tty, []) := by
    rw [show p₂.tty = _ from congrArg Architecture.tty hp₂]
    rfl
  have hlen : [(0 : Time)].length + 1 = Architecture.cycles p₂.nextWord := by
    rw [hnext]
    rfl
  obtain ⟨s, hcomplete, -⟩ := instruction_refinement hb₂ hno hpoll hlen
  obtain ⟨t, hback, hcount⟩ := exists_run_of_completes hcomplete hrun₂
  have hfour : stepCount t = 4 := hcount
  obtain ⟨hno', -, hreturned⟩ := hreturn t s hback (by omega)
  exact ⟨core, r, t, s, hack, hrun, hac, hback, hfour, hno', hreturned hfour⟩

end Processor

end Pdp8
