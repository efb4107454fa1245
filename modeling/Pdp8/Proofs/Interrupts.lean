import Pdp8.Proofs.Boundary

/-!
# Pdp8.Proofs.Interrupts — what a step does to the interrupt system

The registers that decide about interrupts change in two ways only: an interrupt clears them, and
the fetch of a word changes them as the word says (`AfterFetch`).  The cycles that follow leave
them alone, because a jump has let interrupts in at its fetch already (`Sound`).  `step_cases` puts
the three together.
-/

namespace Pdp8

/-! ## Words -/

namespace Instruction

/-- ION. -/
def ion : Word := 0o6001

/-- IOF. -/
def iof : Word := 0o6002

/-- CIF N and CDF CIF N, the codes 62N2 and 62N3. -/
def changesField (word : Word) : Bool :=
  decide (word.toNat / 64 = 0o62 ∧ (word.toNat % 8 = 2 ∨ word.toNat % 8 = 3))

/-- JMS and JMP, the opcodes 4 and 5. -/
def jumps (word : Word) : Bool :=
  decide (word.toNat / 0o1000 = 4 ∨ word.toNat / 0o1000 = 5)

theorem isJumpClass_decode (word : Word) : (decode word).isJumpClass = jumps word := by
  unfold jumps
  rcases decode_cases word with ⟨op, hd, hdec⟩ | ⟨hd, hdec⟩ | ⟨hd, hdec⟩ | ⟨hd, hdec⟩
  · rw [hdec, hd]
    cases op <;> rfl
  · rw [hdec, hd]
    rfl
  · rw [hdec, hd]
    rfl
  · rw [hdec, hd]
    rfl

/-- They are the transfers that select the instruction field. -/
theorem changesField_eq (code : Word) :
    changesField code =
      match ExtensionCommand.ofCode? code with
      | some (.cif _) => true
      | some (.cdfCif _) => true
      | _ => false := by
  unfold changesField ExtensionCommand.ofCode?
  by_cases hext : code &&& 0o7700 = 0o6200
  · have hk : code.toNat % 8 < 8 := Nat.mod_lt _ (by omega)
    simp only [hext, if_true, toNat_and_seven, (and_mask_eq_iff code).mp hext, true_and]
    generalize code.toNat % 8 = k at hk
    match k, hk with
    | 0, _ => rfl
    | 1, _ => rfl
    | 2, _ => rfl
    | 3, _ => rfl
    | 4, _ =>
      generalize code.fieldBits.toNat = m
      rcases m with _ | _ | _ | _ | _ | m <;> rfl
    | 5, _ => rfl
    | 6, _ => rfl
    | 7, _ => rfl
  · have hcode : ¬ code.toNat / 64 = 0o62 := fun h => hext ((and_mask_eq_iff code).mpr h)
    simp only [hext, if_false, hcode, false_and, decide_false]

/-- The codes of the memory extension are transfers. -/
theorem digit_of_changesField {word : Word} (h : changesField word = true) :
    word.toNat / 0o1000 = 6 := by
  unfold changesField at h
  rw [decide_eq_true_eq] at h
  omega

theorem changesField_of_jumps {word : Word} (h : jumps word = true) :
    changesField word = false := by
  cases hc : changesField word with
  | false => rfl
  | true =>
    have hd := digit_of_changesField hc
    unfold jumps at h
    rw [decide_eq_true_eq] at h
    omega

end Instruction

open Instruction

namespace Extension

variable {e e' : Extension} {word : Word}

/-- The fields that an interrupt saves are as they were. -/
structure SameSaved (e e' : Extension) : Prop where
  data : e'.savedDataField = e.savedDataField
  instruction : e'.savedInstructionField = e.savedInstructionField

/-- The interrupt system before and after the fetch cycle of a word. -/
structure AfterFetch (word : Word) (e e' : Extension) : Prop where
  /-- ION takes effect at the fetch that follows it, unless that is the fetch of an IOF. -/
  enabled : e'.enabled = (decide (word ≠ iof) && e.enabling)
  enabling : e'.enabling = (decide (word = ion) || decide (word ≠ iof) && e.enabling)
  heldOff : e'.heldOff = (changesField word || !jumps word && e.heldOff)
  requested : e'.requested = e.requested
  saved : SameSaved e e'

/-- The interrupt system is as it was. -/
structure SameInterrupts (e e' : Extension) : Prop where
  enabled : e'.enabled = e.enabled
  enabling : e'.enabling = e.enabling
  heldOff : e'.heldOff = e.heldOff
  requested : e'.requested = e.requested
  saved : SameSaved e e'

theorem SameInterrupts.refl (e : Extension) : SameInterrupts e e :=
  ⟨rfl, rfl, rfl, rfl, rfl, rfl⟩

/-- A jump lets interrupts in, which its fetch has done before. -/
theorem sameInterrupts_jump (h : e.heldOff = false) : SameInterrupts e e.jump :=
  ⟨rfl, rfl, h.symm, rfl, rfl, rfl⟩

/-- The memory extension itself only holds interrupts off, for CIF and CDF CIF. -/
theorem iot_interrupts (code ac : Word) (e : Extension) :
    (e.iot code ac).2.2.enabled = e.enabled ∧ (e.iot code ac).2.2.enabling = e.enabling ∧
      (e.iot code ac).2.2.heldOff = (changesField code || e.heldOff) ∧
      (e.iot code ac).2.2.requested = e.requested ∧ SameSaved e (e.iot code ac).2.2 := by
  rw [changesField_eq]
  unfold iot
  cases ExtensionCommand.ofCode? code with
  | none => exact ⟨rfl, rfl, rfl, rfl, rfl, rfl⟩
  | some c => cases c <;> exact ⟨rfl, rfl, rfl, rfl, rfl, rfl⟩

end Extension

/-! ## The teletype -/

namespace Teletype

/-- The teletype asks for an interrupt. -/
def Asks (t : Teletype) : Prop :=
  t.interruptEnable = true ∧ (t.keyboardFlag = true ∨ t.printerFlag = true)

variable {t t' : Teletype} {now : Time} {events : List Event}

/-- After a poll the request line says what the flags say. -/
theorem interruptRequest_of_poll (h : t.poll now = .ok (t', events)) :
    t'.interruptRequest = true ↔ t'.Asks := by
  unfold poll at h
  split at h
  · cases h
  · split at h
    · cases h
    · cases h
      simp [updateRequest, Asks]

/-- The printer's part of a poll raises a flag only with a character. -/
theorem servePrinter_keeps (h : t.servePrinter now = .ok (t', events)) :
    t'.interruptEnable = t.interruptEnable ∧ t'.keyboardFlag = t.keyboardFlag ∧
      (events = [] → t'.printerFlag = t.printerFlag) := by
  unfold servePrinter at h
  split at h
  · split at h
    · cases h
      exact ⟨rfl, rfl, nofun⟩
    · cases h
      exact ⟨rfl, rfl, fun _ => rfl⟩
    · cases h
  · cases h
    exact ⟨rfl, rfl, fun _ => rfl⟩

/-- So does the keyboard's. -/
theorem serveKeyboard_keeps (h : t.serveKeyboard now = .ok (t', events)) :
    t'.interruptEnable = t.interruptEnable ∧ t'.printerFlag = t.printerFlag ∧
      (events = [] → t'.keyboardFlag = t.keyboardFlag) := by
  unfold serveKeyboard at h
  split at h
  · split at h
    · cases h
      exact ⟨rfl, rfl, nofun⟩
    · cases h
      exact ⟨rfl, rfl, fun _ => rfl⟩
    · cases h
  · cases h
    exact ⟨rfl, rfl, fun _ => rfl⟩

/-- A poll raises a flag only with a character, and leaves it to the program whether the teletype
may interrupt. -/
theorem poll_keeps (h : t.poll now = .ok (t', events)) :
    t'.interruptEnable = t.interruptEnable ∧
      (events = [] → t'.keyboardFlag = t.keyboardFlag ∧ t'.printerFlag = t.printerFlag) := by
  unfold poll at h
  split at h
  · cases h
  · rename_i t₁ printed hprinter
    split at h
    · cases h
    · rename_i t₂ typed hkeyboard
      cases h
      obtain ⟨he₁, hk₁, hp₁⟩ := servePrinter_keeps hprinter
      obtain ⟨he₂, hp₂, hk₂⟩ := serveKeyboard_keeps hkeyboard
      refine ⟨he₂.trans he₁, ?_⟩
      intro hnil
      obtain ⟨rfl, rfl⟩ := List.append_eq_nil_iff.mp hnil
      exact ⟨(hk₂ rfl).trans hk₁, hp₂.trans (hp₁ rfl)⟩

end Teletype

namespace Processor

open Extension

variable (p : Processor)

@[simp] theorem fields_reportTrace (event : Event) : (p.reportTrace event).fields = p.fields := by
  unfold reportTrace
  split <;> rfl

@[simp] theorem fields_interrupt : p.interrupt.fields = p.fields.acknowledge :=
  congrArg Extension.acknowledge (fields_reportTrace _ _)

/-- An interrupt writes to core once, to store PC. -/
theorem core_interrupt : p.interrupt.core = p.core.write .zero p.regs.pc := by
  unfold interrupt reportTrace
  dsimp only
  split <;> rfl

/-! ## Fetch -/

theorem fields_respond (code : Word) (response : IotResponse) :
    (p.respond code response).fields = p.fields := by
  cases response <;> rfl

theorem fields_operate (op : Operate) : (p.operate op).2.fields = p.fields := by
  cases op with
  | group1 g =>
    unfold operate operate1
    dsimp only
    split <;> rfl
  | group2 g =>
    unfold operate operate2
    dsimp only
    split_ifs <;> rfl
  | undefined word => rfl

/-- A fetch cycle refers to core once, to read the word. -/
theorem core_fetch : p.loadInstruction.beginInstruction.2.core = p.core.read p.home := by
  have hrespond (code : Word) (response : IotResponse) (q : Processor) :
      (q.respond code response).core = q.core := by
    cases response <;> rfl
  have hload : p.loadInstruction.core = p.core.read p.home := by
    unfold loadInstruction reportTrace
    dsimp only
    split <;> rfl
  rw [← hload]
  unfold beginInstruction
  split
  · rfl
  · split_ifs <;> rfl
  · unfold transfer
    split_ifs
    · rfl
    · rfl
    · exact hrespond _ _ _
    · exact hrespond _ _ _
  · unfold operate operate1 operate2
    split
    · dsimp only
      split <;> rfl
    · dsimp only
      split_ifs <;> rfl
    · rfl

/-- A transfer other than ION and IOF. -/
theorem fields_transfer {code : Word} (hion : code ≠ ion) (hiof : code ≠ iof) :
    (p.transfer code).fields = (p.fields.iot code p.regs.ac).2.2 := by
  unfold transfer
  rw [if_neg (show ¬ code = 0o6001 from hion), if_neg (show ¬ code = 0o6002 from hiof)]
  split_ifs with hext
  · exact fields_respond _ _ _
  · refine (fields_respond _ _ _).trans ?_
    unfold Extension.iot ExtensionCommand.ofCode?
    rw [if_neg hext]

/-- What a transfer does to the interrupt system once its word has been fetched. -/
theorem transfer_interrupts (code : Word) :
    let e := p.fields
    let e' := (p.transfer code).fields
    e'.enabled = (decide (code ≠ iof) && e.enabled) ∧
      e'.enabling = (decide (code = ion) || decide (code ≠ iof) && e.enabling) ∧
      e'.heldOff = (changesField code || e.heldOff) ∧ e'.requested = e.requested ∧
      SameSaved e e' := by
  dsimp only
  by_cases hion : code = ion
  · subst hion
    have h : (p.transfer ion).fields = p.fields.interruptOn := rfl
    rw [h]
    exact ⟨rfl, rfl, rfl, rfl, rfl, rfl⟩
  by_cases hiof : code = iof
  · subst hiof
    have h : (p.transfer iof).fields = p.fields.interruptOff := rfl
    rw [h]
    exact ⟨rfl, rfl, rfl, rfl, rfl, rfl⟩
  rw [p.fields_transfer hion hiof]
  obtain ⟨henabled, henabling, hheld, hrest⟩ := iot_interrupts code p.regs.ac p.fields
  refine ⟨?_, ?_, hheld, hrest⟩
  · rw [henabled, decide_eq_true hiof, Bool.true_and]
  · rw [henabling, decide_eq_true hiof, decide_eq_false hion, Bool.true_and, Bool.false_or]

theorem fields_loadInstruction :
    p.loadInstruction.fields = { p.fields.latch with
      heldOff := !jumps p.nextWord && p.fields.heldOff } := by
  unfold loadInstruction
  rw [fields_reportTrace, ← isJumpClass_decode]
  change (if (Instruction.decode p.nextWord).isJumpClass then _ else _) = _
  cases (Instruction.decode p.nextWord).isJumpClass <;> rfl

/-- What the fetch of a word that is no transfer does before its instruction begins. -/
theorem afterFetch_loadInstruction (h : p.nextWord.toNat / 0o1000 ≠ 6) :
    AfterFetch p.nextWord p.fields p.loadInstruction.fields := by
  have hion : p.nextWord ≠ ion := by
    intro hw
    rw [hw] at h
    exact h rfl
  have hiof : p.nextWord ≠ iof := by
    intro hw
    rw [hw] at h
    exact h rfl
  have hchange : changesField p.nextWord = false := by
    cases hc : changesField p.nextWord with
    | false => rfl
    | true => exact absurd (digit_of_changesField hc) h
  rw [p.fields_loadInstruction]
  constructor
  · simp only [hiof, ne_eq, not_false_eq_true, decide_true, Bool.true_and]
    rfl
  · simp only [hion, hiof, ne_eq, not_false_eq_true, decide_true, decide_false, Bool.true_and,
      Bool.false_or]
    rfl
  · rw [hchange, Bool.false_or]
  · rfl
  · exact ⟨rfl, rfl⟩

/-- What the fetch of a word does to the interrupt system. -/
theorem afterFetch :
    AfterFetch p.nextWord p.fields p.loadInstruction.beginInstruction.2.fields := by
  have hcurrent := p.current_loadInstruction
  unfold beginInstruction
  rw [hcurrent]
  rcases decode_cases p.nextWord with ⟨op, hd, hdec⟩ | ⟨hd, hdec⟩ | ⟨hd, hdec⟩ | ⟨hd, hdec⟩
  · have hne : p.nextWord.toNat / 0o1000 ≠ 6 := by
      rw [hd]
      cases op <;> decide
    rw [hdec]
    exact p.afterFetch_loadInstruction hne
  · have hload := p.afterFetch_loadInstruction (by rw [hd]; decide)
    rw [hdec]
    dsimp only
    split_ifs
    · exact hload
    · -- a direct JMP lets interrupts in a second time
      have hjumps : jumps p.nextWord = true := decide_eq_true (.inr hd)
      have hheld : p.loadInstruction.fields.heldOff = false := by
        rw [p.fields_loadInstruction, hjumps]
        rfl
      refine ⟨hload.enabled, hload.enabling, ?_, hload.requested,
        hload.saved.data, hload.saved.instruction⟩
      rw [← hload.heldOff, hheld]
      rfl
  · rw [hdec]
    dsimp only
    have hjumps : jumps p.nextWord = false := by
      unfold jumps
      rw [hd]
      rfl
    have hload := p.fields_loadInstruction
    rw [hjumps, Bool.not_false, Bool.true_and] at hload
    obtain ⟨henabled, henabling, hheld, hrequested, hsaved⟩ :=
      p.loadInstruction.transfer_interrupts p.nextWord
    rw [hload] at henabled henabling hheld hrequested hsaved
    refine ⟨henabled, henabling, ?_, hrequested, hsaved.data, hsaved.instruction⟩
    rw [hheld, hjumps, Bool.not_false, Bool.true_and]
  · rw [hdec]
    dsimp only
    rw [fields_operate]
    exact p.afterFetch_loadInstruction (by rw [hd]; decide)

/-! ## Defer and execute -/

/-- What holds between the cycles of an instruction: only an indirect one goes through a defer
cycle, and a jump under way has let interrupts in. -/
structure Sound (p : Processor) : Prop where
  coherent : p.Coherent
  released : p.atBoundary = false → p.current.isJumpClass = true → p.fields.heldOff = false

variable {p} {q : Processor} {now : Time} {o : Outcome}

theorem sound_of_atBoundary (h : p.atBoundary = true) : p.Sound := by
  constructor
  · intro hc
    unfold atBoundary at h
    rw [hc] at h
    cases hi : p.current with
    | jump operand =>
      rw [hi] at h
      exact ⟨operand, if_pos h, h⟩
    | memory op operand => simp [hi, isIndirectJump] at h
    | iot code => simp [hi, isIndirectJump] at h
    | operate op => simp [hi, isIndirectJump] at h
  · intro hoff
    rw [h] at hoff
    cases hoff

theorem sameInterrupts_defer (h : p.current.isJumpClass = true → p.fields.heldOff = false)
    (pointer : Word) : SameInterrupts p.fields (p.defer pointer).fields := by
  rw [defer_eq]
  dsimp only
  cases hi : p.current with
  | jump operand =>
    have hheld : p.fields.heldOff = false := h (by rw [hi]; rfl)
    refine (congrArg (SameInterrupts p.fields) ?_).mpr (sameInterrupts_jump hheld)
    exact congrArg Extension.jump (fields_loadPointer _ _)
  | memory op operand => rw [fields_loadPointer]; exact .refl p.fields
  | iot code => rw [fields_loadPointer]; exact .refl p.fields
  | operate op => rw [fields_loadPointer]; exact .refl p.fields

theorem sameInterrupts_refers {op : MemoryOp} (h : op = .jms → p.fields.heldOff = false)
    (a : Address) : SameInterrupts p.fields (refers op a p).fields := by
  cases op with
  | and => exact .refl _
  | tad => exact .refl _
  | isz =>
    unfold refers isz
    dsimp only
    split_ifs <;> exact .refl _
  | dca => exact .refl _
  | jms => exact sameInterrupts_jump (h rfl)

/-! ## Every step -/

/-- An interrupt is taken in place of a fetch. -/
structure Interrupted (now : Time) (p q : Processor) : Prop where
  atBoundary : p.atBoundary = true
  acknowledges : p.Acknowledges now
  eq : ∃ polled, p.poll now = .ok polled ∧ q = polled.interrupt

/-- A word is fetched, and carried out as far as its fetch cycle goes. -/
structure Fetched (now : Time) (p q : Processor) : Prop where
  atBoundary : p.atBoundary = true
  declines : ¬ p.Acknowledges now
  eq : ∃ polled, p.poll now = .ok polled ∧ q = polled.loadInstruction.beginInstruction.2
  interrupts : AfterFetch p.nextWord p.fields q.fields

/-- An instruction is carried on with. -/
structure Continued (p q : Processor) : Prop where
  offBoundary : p.atBoundary = false
  interrupts : SameInterrupts p.fields q.fields

theorem step_cases (hp : p.Sound) (h : p.step now = .ok (o, q)) :
    q.Sound ∧ (Interrupted now p q ∨ Fetched now p q ∨ Continued p q) := by
  cases hb : p.atBoundary with
  | true =>
    have hstep := h
    rw [step_of_atBoundary hb, fetch_eq_ok_iff] at hstep
    obtain ⟨polled, hpoll, ⟨hw, rfl, rfl⟩ | ⟨hw, he⟩⟩ := hstep
    · have hack := (acknowledges_iff_of_poll hb hpoll).mpr hw
      exact ⟨sound_of_atBoundary rfl, .inl ⟨hb, hack, polled, hpoll, rfl⟩⟩
    · have hq : q = polled.loadInstruction.beginInstruction.2 := congrArg Prod.snd he
      have hack : ¬ p.Acknowledges now := by
        rw [acknowledges_iff_of_poll hb hpoll, hw]
        exact Bool.false_ne_true
      have hfields : polled.fields = p.fields ∧ polled.nextWord = p.nextWord := by
        obtain ⟨tty, events, -, rfl⟩ := poll_eq_ok_iff.mp hpoll
        exact ⟨rfl, rfl⟩
      have hafter := polled.afterFetch
      rw [hfields.1, hfields.2, ← hq] at hafter
      refine ⟨⟨coherent_of_cycle ?_, ?_⟩, .inr (.inl ⟨hb, hack, ⟨polled, hpoll, hq⟩, hafter⟩)⟩
      · rw [hq, (sameControl_fetch polled).cycle, cycle_loadInstruction]
        exact nofun
      · intro _ hj
        rw [hq, (sameControl_fetch polled).current, current_loadInstruction, hfields.2,
          isJumpClass_decode] at hj
        rw [hafter.heldOff, hj, changesField_of_jumps hj]
        rfl
  | false =>
    rcases step_off_boundary hp.coherent hb now with
      ⟨operand, hc, ho, hi, hs⟩ | ⟨op, operand, a, hcur, hs⟩
    · rw [h] at hs
      cases hs
      have hsame := sameInterrupts_defer (hp.released hb) (operand.resolve p.fetchedFrom)
      refine ⟨⟨?_, ?_⟩, .inr (.inr ⟨hb, hsame⟩)⟩
      · intro _
        rw [current_defer]
        exact ⟨operand, ho, hi⟩
      · intro _ hj
        rw [current_defer] at hj
        rw [hsame.heldOff]
        exact hp.released hb hj
    · rw [h] at hs
      cases hs
      have hheld (hop : op = .jms) : p.fields.heldOff = false := by
        refine hp.released hb ?_
        rw [hcur, hop]
        rfl
      have hsame : SameInterrupts p.fields (refers op a { p with cycle := .execute }).fields :=
        sameInterrupts_refers (p := { p with cycle := .execute }) hheld a
      refine ⟨sound_of_atBoundary ?_, .inr (.inr ⟨hb, hsame⟩)⟩
      unfold atBoundary
      rw [cycle_refers]

theorem fetched_of_step (hb : p.atBoundary = true) (hno : ¬ p.Acknowledges now)
    (hs : p.step now = .ok (o, q)) : Fetched now p q := by
  obtain ⟨-, hi | hf | hc⟩ := step_cases (sound_of_atBoundary hb) hs
  · exact absurd hi.acknowledges hno
  · exact hf
  · exact absurd (hc.offBoundary.symm.trans hb) Bool.false_ne_true

/-- Only a failure of the teletype can stop a step. -/
theorem exists_step {tty : Teletype} {events : List Event} (hp : p.Sound)
    (hpoll : p.tty.poll now = .ok (tty, events)) : ∃ o q, p.step now = .ok (o, q) := by
  cases hb : p.atBoundary with
  | true =>
    have hs := (step_of_atBoundary hb now).trans
      (fetch_eq_of_poll (poll_eq_ok_iff.mpr ⟨tty, events, hpoll, rfl⟩))
    split_ifs at hs
    · exact ⟨_, _, hs⟩
    · exact ⟨_, _, hs⟩
  | false =>
    rcases step_off_boundary hp.coherent hb now with ⟨_, _, _, _, hs⟩ | ⟨_, _, _, _, hs⟩
    · exact ⟨_, _, hs⟩
    · exact ⟨_, _, hs⟩

end Processor

end Pdp8
