import Pdp8.Proofs.History

/-!
# Pdp8.Proofs.FieldChange — a change of field that waits for its jump

CIF and CDF CIF select an instruction field that only the next jump goes to, and hold interrupts
off until then.  `Pending` says what keeps an interrupt away as long as the selected field differs
from the current one: the hold-off itself, or a jump that is under way.  RMF selects a field as
well, but raises no hold-off, and it is the only gap (`field_change_kept`): an interrupt that comes
between an RMF and its jump loses the selected field.
-/

namespace Pdp8

open Instruction

/-! ## RMF -/

/-- RMF. -/
def Instruction.rmf : Word := 0o6244

/-- The code of RMF is the only one that restores the fields. -/
theorem ExtensionCommand.eq_of_ofCode?_rmf {code : Word} (h : ofCode? code = some .rmf) :
    code = Instruction.rmf := by
  have hlow : code.toNat / 64 = 0o62 ∧ code.toNat % 8 = 4 ∧ code.toNat / 8 % 8 = 4 := by
    unfold ofCode? at h
    split at h
    · rename_i hext
      simp only [toNat_and_seven, Word.toNat_fieldBits] at h
      refine ⟨(and_mask_eq_iff code).mp hext, ?_⟩
      grind
    · cases h
  apply BitVec.eq_of_toNat_eq
  show code.toNat = 0o6244
  omega

/-- There has been an RMF since the latest interrupt, and no JMP or JMS has been fetched since. -/
def RestoreSince (h : List Happening) : Prop :=
  ∃ place, .fetched place rmf ∈ since (fun e => e == .acknowledged || e.fetches jumps) h

section Cons

variable {h : List Happening} {place : Address} {word : Word}

theorem restoreSince_rmf : RestoreSince (.fetched place rmf :: h) := by
  refine ⟨place, ?_⟩
  rw [since_cons rfl]
  exact List.mem_cons_self

/-- Only an interrupt or a jump ends it. -/
theorem RestoreSince.cons (hr : RestoreSince h) {e : Happening} (hack : e ≠ .acknowledged)
    (hjump : e.fetches jumps = false) : RestoreSince (e :: h) := by
  obtain ⟨place, hmem⟩ := hr
  refine ⟨place, ?_⟩
  rw [since_cons (by simp [hack, hjump])]
  exact List.mem_cons_of_mem _ hmem

end Cons

/-! ## What selects a field, and what brings it into effect -/

namespace Extension

/-- The current instruction field and the selected one are as they were. -/
structure SameSelection (e e' : Extension) : Prop where
  instructionField : e'.instructionField = e.instructionField
  fieldAfterJump : e'.fieldAfterJump = e.fieldAfterJump

/-- No transfer but CIF, CDF CIF and RMF selects a field. -/
theorem sameSelection_iot {code : Word} (hchange : changesField code = false) (hrmf : code ≠ rmf)
    (ac : Word) (e : Extension) : SameSelection e (e.iot code ac).2.2 := by
  rw [changesField_eq] at hchange
  unfold iot
  cases hcode : ExtensionCommand.ofCode? code with
  | none => exact ⟨rfl, rfl⟩
  | some c =>
    rw [hcode] at hchange
    cases c with
    | cif n => cases hchange
    | cdfCif n => cases hchange
    | rmf => exact absurd (ExtensionCommand.eq_of_ofCode?_rmf hcode) hrmf
    | _ => exact ⟨rfl, rfl⟩

end Extension

namespace Processor

open Extension

variable {start p q polled : Processor} {h : List Happening} {now : Time} {o : Outcome}

/-- A JMP or JMS has been fetched, and is not complete. -/
def Jumping (p : Processor) : Prop := p.atBoundary = false ∧ p.current.isJumpClass = true

/-- A jump that its fetch does not complete is under way after it. -/
theorem jumping_or_complete (hjump : jumps p.nextWord = true) :
    p.loadInstruction.beginInstruction.2.Jumping ∨
      p.loadInstruction.beginInstruction.2.fields.fieldAfterJump =
        p.loadInstruction.beginInstruction.2.fields.instructionField := by
  have hcontrol := sameControl_fetch p
  have hcurrent := p.current_loadInstruction
  have hclass : p.loadInstruction.beginInstruction.2.current.isJumpClass = true := by
    rw [hcontrol.current, hcurrent, isJumpClass_decode, hjump]
  unfold Jumping
  rw [hclass, hcontrol.atBoundary]
  unfold atBoundary completesInFetch
  rw [cycle_loadInstruction]
  cases hpending : p.loadInstruction.current.pendingOperand? with
  | some operand => exact .inl ⟨rfl, rfl⟩
  | none =>
    -- only a direct JMP is complete
    right
    rw [hcontrol.current] at hclass
    unfold beginInstruction
    cases hcur : p.loadInstruction.current with
    | jump operand =>
      have hdirect : ¬ operand.indirect = true := by
        intro hi
        rw [hcur] at hpending
        simp [pendingOperand?, hi] at hpending
      dsimp only
      rw [if_neg hdirect]
      rfl
    | memory op operand => rw [hcur] at hpending; cases hpending
    | iot code => rw [hcur] at hclass; cases hclass
    | operate op => rw [hcur] at hclass; cases hclass

/-- The fetch of anything else but CIF, CDF CIF and RMF leaves the selection alone. -/
theorem sameSelection_fetch (hjump : jumps p.nextWord = false)
    (hchange : changesField p.nextWord = false) (hrmf : p.nextWord ≠ rmf) :
    SameSelection p.fields p.loadInstruction.beginInstruction.2.fields := by
  have hload : SameSelection p.fields p.loadInstruction.fields := by
    rw [fields_loadInstruction]
    exact ⟨rfl, rfl⟩
  have hclass := isJumpClass_decode p.nextWord
  rw [hjump] at hclass
  unfold beginInstruction
  rw [current_loadInstruction]
  rcases decode_cases p.nextWord with ⟨op, -, hdec⟩ | ⟨-, hdec⟩ | ⟨-, hdec⟩ | ⟨-, hdec⟩
  · rw [hdec]
    exact hload
  · rw [hdec] at hclass
    cases hclass
  · rw [hdec]
    dsimp only
    by_cases hion : p.nextWord = ion
    · rw [hion]
      exact ⟨hload.instructionField, hload.fieldAfterJump⟩
    by_cases hiof : p.nextWord = iof
    · rw [hiof]
      exact ⟨hload.instructionField, hload.fieldAfterJump⟩
    rw [fields_transfer _ hion hiof]
    have hiot := sameSelection_iot hchange hrmf p.loadInstruction.regs.ac p.loadInstruction.fields
    exact ⟨hiot.instructionField.trans hload.instructionField,
      hiot.fieldAfterJump.trans hload.fieldAfterJump⟩
  · rw [hdec]
    dsimp only
    rw [fields_operate]
    exact hload

/-- RMF selects the field that the latest interrupt saved. -/
theorem fieldAfterJump_of_rmf (hword : p.nextWord = rmf) :
    p.loadInstruction.beginInstruction.2.fields.fieldAfterJump =
      p.fields.savedInstructionField := by
  unfold beginInstruction
  rw [current_loadInstruction, hword]
  have hiot : (p.loadInstruction.transfer rmf).fields.fieldAfterJump =
      p.loadInstruction.fields.savedInstructionField := rfl
  refine hiot.trans ?_
  rw [fields_loadInstruction]
  rfl

/-- The cycles after a fetch leave the fields alone, unless they belong to a jump, which they
bring nearer to its end or complete. -/
theorem selection_of_continued (hp : p.Sound) (hs : p.step now = .ok (o, q))
    (hc : Continued p q) :
    (p.current.isJumpClass = false ∧ q.fields = p.fields) ∨ q.Jumping ∨
      q.fields.fieldAfterJump = q.fields.instructionField := by
  rcases step_off_boundary hp.coherent hc.offBoundary now with
    ⟨operand, hcycle, hpending, hi, hdefer⟩ | ⟨op, operand, a, hcur, hexecute⟩
  · rw [hs] at hdefer
    cases hdefer
    have hsame := p.current_defer (operand.resolve p.fetchedFrom)
    cases hcur : p.current with
    | jump operand' =>
      right; right
      rw [defer_eq]
      simp only [hcur]
      rfl
    | memory op operand' =>
      have hfields : (p.defer (operand.resolve p.fetchedFrom)).fields = p.fields := by
        rw [defer_eq]
        simp only [hcur]
        exact fields_loadPointer _ _
      by_cases hjms : op = .jms
      · right; left
        subst hjms
        unfold Jumping atBoundary
        rw [cycle_defer, hsame, hcur]
        exact ⟨rfl, rfl⟩
      · refine .inl ⟨?_, hfields⟩
        cases op <;> first | rfl | exact absurd rfl hjms
    | iot code => rw [hcur] at hpending; cases hpending
    | operate op => rw [hcur] at hpending; cases hpending
  · rw [hs] at hexecute
    cases hexecute
    rw [hcur]
    cases op with
    | jms => exact .inr (.inr rfl)
    | and => exact .inl ⟨rfl, rfl⟩
    | tad => exact .inl ⟨rfl, rfl⟩
    | dca => exact .inl ⟨rfl, rfl⟩
    | isz =>
      refine .inl ⟨rfl, ?_⟩
      unfold refers isz
      dsimp only
      split_ifs <;> rfl

/-! ## Where a run begins -/

/-- What a run begins with: a reset, or LOAD ADDRESS at any moment of such a run, whether or not
it brings the processor back to the idle state. -/
inductive Begins : Processor → Prop
  | reset (traced : Bool) (core : Core) (tty : Teletype) (regs : Registers) :
    Begins { powerUp traced core tty with regs := regs }
  | load {start p q : Processor} {h : List Happening} (dataField instructionField : FieldNumber) :
    Begins start → Run start h p → q.fields = p.fields.load dataField instructionField →
      q.cycle = .idle ∨ SameControl p q → Begins q

theorem begins_loadedAt (field : FieldNumber) (w₀ w₁ w₂ : Word) :
    Begins (loadedAt field w₀ w₁ w₂) :=
  .load field field (.reset false _ _ _) .start rfl (.inl rfl)

/-- There no change of field is waiting. -/
theorem Begins.settled (hb : Begins p) :
    p.Sound ∧ p.fields.fieldAfterJump = p.fields.instructionField := by
  induction hb with
  | reset traced core tty regs => exact ⟨sound_of_atBoundary rfl, rfl⟩
  | @load start p q h d i _ hrun hfields hcontrol ih =>
    have hp := sound_of_run ih.1 hrun
    refine ⟨?_, ?_⟩
    · rcases hcontrol with hidle | hsame
      · refine sound_of_atBoundary ?_
        unfold atBoundary
        rw [hidle]
      · constructor
        · intro hc
          rw [hsame.current]
          exact hp.coherent (hsame.cycle ▸ hc)
        · intro hoff hj
          rw [hsame.atBoundary] at hoff
          rw [hsame.current] at hj
          rw [hfields]
          exact hp.released hoff hj
    · rw [hfields]
      rfl

/-! ## The invariant -/

/-- A selected field that is not in effect yet is safe from interrupts, or comes from RMF. -/
structure Pending (h : List Happening) (p : Processor) : Prop where
  sound : p.Sound
  heldOff : ChangeSince h → p.fields.heldOff = true
  field : p.fields.fieldAfterJump = p.fields.instructionField ∨ p.fields.heldOff = true ∨
    p.Jumping ∨ RestoreSince h ∧ p.fields.fieldAfterJump = p.fields.savedInstructionField

theorem Begins.pending (hb : Begins p) : p.Pending [] := by
  obtain ⟨hsound, hfield⟩ := hb.settled
  refine ⟨hsound, ?_, .inl hfield⟩
  rintro ⟨place, word, hmem, -⟩
  cases hmem

theorem Pending.request (hp : p.Pending h) :
    (p.onFields Extension.request).Pending (.requested :: h) := by
  refine ⟨⟨hp.sound.coherent, hp.sound.released⟩, ?_, ?_⟩
  · rw [changeSince_cons (.inl rfl)]
    exact hp.heldOff
  · rcases hp.field with heq | hheld | hjump | ⟨hrestore, heq⟩
    · exact .inl heq
    · exact .inr (.inl hheld)
    · exact .inr (.inr (.inl hjump))
    · exact .inr (.inr (.inr ⟨hrestore.cons nofun rfl, heq⟩))

/-- An interrupt leaves nothing selected. -/
theorem Pending.interrupted (hi : Interrupted now p q) (hq : q.Sound) (hp : p.Pending h) :
    q.Pending (.acknowledged :: h) := by
  obtain ⟨polled, hpoll, rfl⟩ := hi.eq
  obtain ⟨tty, events, -, rfl⟩ := poll_eq_ok_iff.mp hpoll
  refine ⟨hq, ?_, .inl ?_⟩
  · rw [changeSince_acknowledged, fields_interrupt]
    exact hp.heldOff
  · rw [fields_interrupt]
    rfl

/-- CIF and CDF CIF hold interrupts off, RMF is noted, a jump is under way or complete, and every
other word leaves the selection alone. -/
theorem Pending.fetched (hp : p.Pending h) (hf : Fetched now p q) (hq : q.Sound) :
    q.Pending (.fetched p.home p.nextWord :: h) := by
  have he := hf.interrupts
  obtain ⟨polled, hpoll, hq'⟩ := hf.eq
  have hpolled : polled.fields = p.fields ∧ polled.nextWord = p.nextWord := by
    obtain ⟨tty, events, -, rfl⟩ := poll_eq_ok_iff.mp hpoll
    exact ⟨rfl, rfl⟩
  refine ⟨hq, ?_, ?_⟩
  · rw [he.heldOff, changeSince_fetched]
    rintro (hchange | ⟨hjump, hsince⟩)
    · rw [hchange, Bool.true_or]
    · rw [hjump, hp.heldOff hsince, Bool.not_false, Bool.and_self, Bool.or_true]
  · cases hjump : jumps p.nextWord with
    | true =>
      have hpart := jumping_or_complete (p := polled) (by rw [hpolled.2, hjump])
      rw [← hq'] at hpart
      rcases hpart with hjumping | hdone
      · exact .inr (.inr (.inl hjumping))
      · exact .inl hdone
    | false =>
      cases hchange : changesField p.nextWord with
      | true =>
        right; left
        rw [he.heldOff, hchange, Bool.true_or]
      | false =>
        by_cases hrmf : p.nextWord = rmf
        · refine .inr (.inr (.inr ⟨?_, ?_⟩))
          · rw [hrmf]
            exact restoreSince_rmf
          · have hafter := fieldAfterJump_of_rmf (p := polled) (hpolled.2.trans hrmf)
            rw [← hq', hpolled.1] at hafter
            rw [hafter, he.saved.instruction]
        · have hsame := sameSelection_fetch (p := polled) (by rw [hpolled.2, hjump])
            (by rw [hpolled.2, hchange]) (by rwa [hpolled.2])
          rw [← hq', hpolled.1] at hsame
          rw [hsame.fieldAfterJump, hsame.instructionField, he.heldOff, he.saved.instruction,
            hchange, hjump]
          rcases hp.field with heq | hheld | hunder | ⟨hrestore, heq⟩
          · exact .inl heq
          · exact .inr (.inl hheld)
          · have hoff := hunder.1
            rw [hf.atBoundary] at hoff
            cases hoff
          · exact .inr (.inr (.inr ⟨hrestore.cons nofun hjump, heq⟩))

theorem Pending.continued (hp : p.Pending h) (hs : p.step now = .ok (o, q))
    (hc : Continued p q) (hq : q.Sound) : q.Pending (.continued :: h) := by
  refine ⟨hq, ?_, ?_⟩
  · rw [hc.interrupts.heldOff, changeSince_cons (.inr rfl)]
    exact hp.heldOff
  · rcases selection_of_continued hp.sound hs hc with ⟨hclass, hfields⟩ | hjumping | hdone
    · rw [hfields]
      rcases hp.field with heq | hheld | hunder | ⟨hrestore, heq⟩
      · exact .inl heq
      · exact .inr (.inl hheld)
      · have hj := hunder.2
        rw [hclass] at hj
        cases hj
      · exact .inr (.inr (.inr ⟨hrestore.cons nofun rfl, heq⟩))
    · exact .inr (.inr (.inl hjumping))
    · exact .inl hdone

theorem Pending.step (hp : p.Pending h) (hs : p.step now = .ok (o, q)) :
    q.Pending (p.happening q :: h) := by
  obtain ⟨hq, hi | hf | hc⟩ := step_cases hp.sound hs
  · rw [happening_interrupted hi]
    exact hp.interrupted hi hq
  · rw [happening_fetched hf]
    exact hp.fetched hf hq
  · rw [happening_continued hc]
    exact hp.continued hs hc hq

theorem pending_of_run (hb : Begins start) (hrun : Run start h p) : p.Pending h := by
  induction hrun with
  | start => exact hb.pending
  | step _ hs ih => exact ih.step hs
  | request _ ih => exact ih.request

/-! ## Interrupts -/

/-- Between a CIF and an interrupt there is always a jump. -/
theorem exists_jump_of_not_changeSince {later : List Happening} {place : Address} {word : Word}
    {earlier : List Happening} (hchange : changesField word = true)
    (hno : ¬ ChangeSince (later ++ .fetched place word :: earlier)) :
    ∃ place' word', .fetched place' word' ∈ later ∧ jumps word' = true := by
  induction later with
  | nil => exact absurd (changeSince_fetched.mpr (.inl hchange)) hno
  | cons e later ih =>
    by_cases hrest : ChangeSince (later ++ .fetched place word :: earlier)
    · -- then it is this very happening that ends the wait
      cases e with
      | requested => exact absurd ((changeSince_cons (.inl rfl)).mpr hrest) hno
      | continued => exact absurd ((changeSince_cons (.inr rfl)).mpr hrest) hno
      | acknowledged => exact absurd (changeSince_acknowledged.mpr hrest) hno
      | fetched place' word' =>
        cases hjump : jumps word' with
        | true => exact ⟨place', word', List.mem_cons_self, hjump⟩
        | false => exact absurd (changeSince_fetched.mpr (.inr ⟨hjump, hrest⟩)) hno
    · obtain ⟨place', word', hmem, hjump⟩ := ih hrest
      exact ⟨place', word', List.mem_cons_of_mem _ hmem, hjump⟩

/-- A field that CIF or CDF CIF has selected is never lost to an interrupt.  Wherever the run of
steps and requests began, with a reset or with LOAD ADDRESS: an interrupt comes between
instructions, and since every CIF or CDF CIF before it some jump has been fetched, and so completed.
It saves the instruction field that the program is in, and this is the one selected last, unless
what selected it was an RMF with neither an interrupt nor a jump since. -/
theorem field_change_kept (hb : Begins start) (hrun : Run start h p)
    (hack : p.Acknowledges now) (hs : p.step now = .ok (o, q)) :
    p.atBoundary = true ∧
      (∀ later place word earlier, h = later ++ .fetched place word :: earlier →
        changesField word = true →
        ∃ place' word', .fetched place' word' ∈ later ∧ jumps word' = true) ∧
      q.fields.savedInstructionField = p.fields.instructionField ∧
      (p.fields.fieldAfterJump = p.fields.instructionField ∨
        RestoreSince h ∧ p.fields.fieldAfterJump = p.fields.savedInstructionField) := by
  have hp := pending_of_run hb hrun
  have hfree := hack.enabled.2
  obtain ⟨hboundary, polled, hpoll, hs'⟩ := hack
  refine ⟨hboundary, ?_, ?_, ?_⟩
  · rintro later place word earlier rfl hchange
    have hno : ¬ ChangeSince (later ++ .fetched place word :: earlier) := by
      intro hsince
      rw [hp.heldOff hsince] at hfree
      cases hfree
    exact exists_jump_of_not_changeSince hchange hno
  · rw [hs] at hs'
    cases hs'
    obtain ⟨tty, events, -, rfl⟩ := poll_eq_ok_iff.mp hpoll
    rw [fields_interrupt]
    rfl
  · rcases hp.field with heq | hheld | hunder | hrestore
    · exact .inl heq
    · rw [hfree] at hheld
      cases hheld
    · have hoff := hunder.1
      rw [hboundary] at hoff
      cases hoff
    · exact .inr hrestore

/-- ION, CIF 1 and JMP 0300: the interrupt waits for the JMP, and saves field 1. -/
theorem field_change_kept_cif :
    ∃ start p q, Begins start ∧
      Run start
        [.fetched ⟨0, 0o202⟩ 0o5300, .fetched ⟨0, 0o201⟩ 0o6212, .fetched ⟨0, 0o200⟩ ion,
          .requested] p ∧
      p.Acknowledges 0 ∧ p.step 0 = .ok (.proceed, q) ∧ p.fields.instructionField = 1 ∧
      p.fields.fieldAfterJump = 1 ∧ q.fields.savedInstructionField = 1 := by
  have hbegins := begins_loadedAt 0 ion 0o6212 0o5300
  obtain ⟨p, memory, hrun, hb, harch, h₀, h₁, h₂⟩ :=
    exists_run_requestedAt 0 (by decide) ion 0o6212 0o5300
  obtain ⟨p₁, hrun₁, hb₁, harch₁⟩ :=
    exists_run_of_quiet 0 hrun hb harch rfl (.inl rfl) h₀ rfl
  obtain ⟨p₂, hrun₂, hb₂, harch₂⟩ :=
    exists_run_of_quiet 0 hrun₁ hb₁ harch₁ rfl (.inl rfl) h₁ rfl
  obtain ⟨p₃, hrun₃, hb₃, harch₃⟩ :=
    exists_run_of_quiet 0 hrun₂ hb₂ harch₂ rfl (.inr rfl) h₂ rfl
  obtain ⟨hack, hstep⟩ := acknowledges_of_architecture 0 hb₃ harch₃ rfl rfl
  obtain ⟨-, -, hsaved, hafter⟩ := field_change_kept hbegins hrun₃ hack hstep
  have hfield : p₃.fields.instructionField = 1 :=
    congrArg (fun s => s.fields.instructionField) harch₃
  have hselected : p₃.fields.fieldAfterJump = 1 :=
    congrArg (fun s => s.fields.fieldAfterJump) harch₃
  exact ⟨_, p₃, _, hbegins, hrun₃, hack, hstep, hfield, hselected, hsaved.trans hfield⟩

/-- ION and RMF in field 1, with field 0 saved: the interrupt does not wait for the JMP.  The program
was to go on in field 0, but field 1 is what the interrupt saves. -/
theorem field_change_lost_rmf :
    ∃ start p q, Begins start ∧
      Run start [.fetched ⟨1, 0o201⟩ rmf, .fetched ⟨1, 0o200⟩ ion, .requested] p ∧
      p.Acknowledges 0 ∧ p.step 0 = .ok (.proceed, q) ∧ p.fields.instructionField = 1 ∧
      p.fields.fieldAfterJump = 0 ∧ q.fields.savedInstructionField = 1 := by
  have hbegins := begins_loadedAt 1 ion rmf 0o5300
  obtain ⟨p, memory, hrun, hb, harch, h₀, h₁, -⟩ :=
    exists_run_requestedAt 1 (by decide) ion rmf 0o5300
  obtain ⟨p₁, hrun₁, hb₁, harch₁⟩ :=
    exists_run_of_quiet 0 hrun hb harch rfl (.inl rfl) h₀ rfl
  obtain ⟨p₂, hrun₂, hb₂, harch₂⟩ :=
    exists_run_of_quiet 0 hrun₁ hb₁ harch₁ rfl (.inl rfl) h₁ rfl
  obtain ⟨hack, hstep⟩ := acknowledges_of_architecture 0 hb₂ harch₂ rfl rfl
  have hfield : p₂.fields.instructionField = 1 :=
    congrArg (fun s => s.fields.instructionField) harch₂
  have hselected : p₂.fields.fieldAfterJump = 0 :=
    congrArg (fun s => s.fields.fieldAfterJump) harch₂
  refine ⟨_, p₂, p₂.interrupt, hbegins, hrun₂, hack, hstep, hfield, hselected, ?_⟩
  rw [fields_interrupt]
  exact hfield

end Processor

end Pdp8
