import Pdp8.Proofs.Boundary

/-!
# Pdp8.Proofs.SwitchRegister — what the processor owes to the switches

The panel sets the switch register at any time, and the events that are reported pile up until
somebody collects them.  The processor looks at neither of them, but for OSR, which reads the
switch register.  So a `Twin`, a processor that differs in these two alone, stays one as long as no
OSR is executed, and for ever if it has the same switch register.
-/

namespace Pdp8

namespace Processor

/-- The processor with other switches and another log. -/
def withSwitches (sr : Word) (log : List Event) (p : Processor) : Processor :=
  { p with regs.sr := sr, log := log }

/-- `q` is `p` but for the log, and for its switch register, which is `sr`. -/
def Twin (sr : Word) (p q : Processor) : Prop := ∃ log, q = p.withSwitches sr log

/-- Two processors are the same but for their switch registers and logs. -/
def Alike (p q : Processor) : Prop := Twin q.regs.sr p q

/-- The next step fetches an OSR, and executes it. -/
def ReadsSwitches (now : Time) (p : Processor) : Prop :=
  p.fetchesNext = true ∧
    (∃ polled, p.poll now = .ok polled ∧
      polled.fields.willInterrupt polled.tty.interruptRequest = false) ∧
    ∃ g, Instruction.decode p.nextWord = .operate (.group2 g) ∧ g.osr = true

variable {sr : Word} {p q : Processor}

namespace Twin

theorem refl (p : Processor) : Twin p.regs.sr p p := ⟨p.log, rfl⟩

theorem trans {sr' : Word} {r : Processor} (h : Twin sr p q) (h' : Twin sr' q r) : Twin sr' p r := by
  obtain ⟨log, rfl⟩ := h
  obtain ⟨log', rfl⟩ := h'
  exact ⟨log', rfl⟩

theorem symm (h : Twin sr p q) : Twin p.regs.sr q p := by
  obtain ⟨log, rfl⟩ := h
  exact ⟨p.log, rfl⟩

theorem alike (h : Twin sr p q) : Alike p q := by
  obtain ⟨log, rfl⟩ := h
  exact ⟨log, rfl⟩

section Same

variable (h : Twin sr p q)

include h

theorem sr_eq : q.regs.sr = sr := by
  obtain ⟨log, rfl⟩ := h
  rfl

theorem mb_eq : q.regs.mb = p.regs.mb := by
  obtain ⟨log, rfl⟩ := h
  rfl

theorem fields_eq : q.fields = p.fields := by
  obtain ⟨log, rfl⟩ := h
  rfl

theorem current_eq : q.current = p.current := by
  obtain ⟨log, rfl⟩ := h
  rfl

theorem atBoundary_eq : q.atBoundary = p.atBoundary := by
  obtain ⟨log, rfl⟩ := h
  rfl

theorem fetchedFrom_eq : q.fetchedFrom = p.fetchedFrom := by
  obtain ⟨log, rfl⟩ := h
  rfl

theorem traced_eq : q.traced = p.traced := by
  obtain ⟨log, rfl⟩ := h
  rfl

theorem tty_eq : q.tty = p.tty := by
  obtain ⟨log, rfl⟩ := h
  rfl

end Same

end Twin

namespace Alike

theorem symm (h : Alike p q) : Alike q p := Twin.symm h

theorem trans {r : Processor} (h : Alike p q) (h' : Alike q r) : Alike p r := Twin.trans h h'

end Alike

/-! ### One operation after another -/

namespace Twin

section Operations

variable (h : Twin sr p q)

include h

theorem report (events events' : List Event) : Twin sr (p.report events) (q.report events') := by
  obtain ⟨log, rfl⟩ := h
  exact ⟨_, rfl⟩

theorem reportTrace (event event' : Event) :
    Twin sr (p.reportTrace event) (q.reportTrace event') := by
  unfold Processor.reportTrace
  rw [h.traced_eq]
  split
  · exact h.report _ _
  · exact h

theorem skip : Twin sr p.skip q.skip := by
  obtain ⟨log, rfl⟩ := h
  exact ⟨_, rfl⟩

theorem jump (target : Word) : Twin sr (p.jump target) (q.jump target) := by
  obtain ⟨log, rfl⟩ := h
  exact ⟨_, rfl⟩

theorem respond (code : Word) (response : IotResponse) :
    Twin sr (p.respond code response) (q.respond code response) := by
  cases response with
  | skip => exact h.skip
  | done => exact h
  | notRecognised => exact h.report _ _

theorem transfer (code : Word) : Twin sr (p.transfer code) (q.transfer code) := by
  obtain ⟨log, rfl⟩ := h
  unfold Processor.transfer
  split_ifs
  · exact ⟨_, rfl⟩
  · exact ⟨_, rfl⟩
  · exact respond ⟨_, rfl⟩ _ _
  · exact respond ⟨_, rfl⟩ _ _

theorem operate1 (g : Group1) : Twin sr (p.operate1 g) (q.operate1 g) := by
  obtain ⟨log, rfl⟩ := h
  unfold Processor.operate1
  split
  · exact ⟨_, rfl⟩
  · exact ⟨_, rfl⟩

/-- A group 2 instruction reads the switch register only for OSR. -/
theorem operate2 (g : Group2) (hsr : sr = p.regs.sr ∨ g.osr = false) :
    (q.operate2 g).1 = (p.operate2 g).1 ∧ Twin sr (p.operate2 g).2 (q.operate2 g).2 := by
  obtain ⟨log, rfl⟩ := h
  have hac (ac : Word) : g.acAfter sr ac = g.acAfter p.regs.sr ac := by
    rcases hsr with rfl | hosr
    · rfl
    · unfold Group2.acAfter
      rw [hosr]
      rfl
  have hlinkAc : (p.withSwitches sr log).linkAc = p.linkAc := rfl
  unfold Processor.operate2
  rw [hlinkAc]
  split_ifs
  all_goals
    refine ⟨rfl, ?_⟩
    simp only [withSwitches, Processor.skip, Processor.report, hac]
    exact ⟨_, rfl⟩

theorem isz (a : Address) : Twin sr (p.isz a) (q.isz a) := by
  obtain ⟨log, rfl⟩ := h
  unfold Processor.isz
  dsimp only
  split_ifs with hzero hzero' hzero'
  · exact ⟨_, rfl⟩
  · exact absurd hzero hzero'
  · exact absurd hzero' hzero
  · exact ⟨_, rfl⟩

theorem refers (op : MemoryOp) (a : Address) :
    Twin sr (Processor.refers op a p) (Processor.refers op a q) := by
  cases op with
  | isz => exact h.isz a
  | and => obtain ⟨log, rfl⟩ := h; exact ⟨_, rfl⟩
  | tad => obtain ⟨log, rfl⟩ := h; exact ⟨_, rfl⟩
  | dca => obtain ⟨log, rfl⟩ := h; exact ⟨_, rfl⟩
  | jms => obtain ⟨log, rfl⟩ := h; exact ⟨_, rfl⟩

theorem inCycle (cycle : Cycle) : Twin sr { p with cycle := cycle } { q with cycle := cycle } := by
  obtain ⟨log, rfl⟩ := h
  exact ⟨_, rfl⟩

theorem loadPointer (a : Address) : Twin sr (p.loadPointer a) (q.loadPointer a) := by
  obtain ⟨log, rfl⟩ := h
  unfold Processor.loadPointer
  split
  · exact ⟨_, rfl⟩
  · exact ⟨_, rfl⟩

theorem defer (pointer : Word) : Twin sr (p.defer pointer) (q.defer pointer) := by
  have hloaded := (h.inCycle .defer).loadPointer ⟨p.fields.instructionField, pointer⟩
  rw [h.current_eq, h.fields_eq] at hloaded
  rw [defer_eq, defer_eq, h.current_eq, h.fields_eq]
  dsimp only
  rw [hloaded.mb_eq]
  split
  · exact hloaded.jump _
  · exact hloaded

theorem interrupt : Twin sr p.interrupt q.interrupt := by
  have htraced := (h.report p.fields.acknowledgeEvents q.fields.acknowledgeEvents).reportTrace
    (.interrupted (p.traceState ⟨p.fields.instructionField, p.regs.pc⟩))
    (.interrupted (q.traceState ⟨q.fields.instructionField, q.regs.pc⟩))
  unfold Processor.interrupt
  dsimp only
  obtain ⟨log, heq⟩ := htraced
  rw [heq]
  exact ⟨_, rfl⟩

theorem loadInstruction : Twin sr p.loadInstruction q.loadInstruction := by
  unfold Processor.loadInstruction
  dsimp only
  refine reportTrace ?_ _ _
  obtain ⟨log, rfl⟩ := h
  exact ⟨_, rfl⟩

theorem beginInstruction
    (hsr : sr = p.regs.sr ∨ ∀ g, p.current = .operate (.group2 g) → g.osr = false) :
    q.beginInstruction.1 = p.beginInstruction.1 ∧
      Twin sr p.beginInstruction.2 q.beginInstruction.2 := by
  unfold Processor.beginInstruction
  rw [h.current_eq, h.fetchedFrom_eq]
  cases hcur : p.current with
  | memory op operand => exact ⟨rfl, h⟩
  | jump operand =>
    dsimp only
    split
    · exact ⟨rfl, h⟩
    · exact ⟨rfl, h.jump _⟩
  | iot code => exact ⟨rfl, h.transfer code⟩
  | operate op =>
    cases op with
    | group1 g => exact ⟨rfl, h.operate1 g⟩
    | group2 g => exact h.operate2 g (hsr.imp_right fun hno => hno g hcur)
    | undefined word => exact ⟨rfl, h.report _ _⟩

end Operations

end Twin

/-! ## Steps -/

/-- The same fault, or results that are related. -/
inductive SameEnd {α β : Type} (R : α → β → Prop) : Except Fault α → Except Fault β → Prop
  | error (f : Fault) : SameEnd R (.error f) (.error f)
  | ok {a : α} {b : β} : R a b → SameEnd R (.ok a) (.ok b)

namespace SameEnd

variable {α β γ : Type} {R : α → β → Prop} {a : α} {f : Fault} {x : Except Fault α}
  {y : Except Fault β} {z : Except Fault γ}

theorem of_error (h : SameEnd R (.error f) y) : y = .error f := by
  cases h
  rfl

theorem of_ok (h : SameEnd R (.ok a) y) : ∃ b, y = .ok b ∧ R a b := by
  cases h with
  | ok hab => exact ⟨_, rfl, hab⟩

theorem imp {S : α → β → Prop} (h : SameEnd R x y) (hRS : ∀ {a b}, R a b → S a b) :
    SameEnd S x y := by
  cases h with
  | error f => exact .error f
  | ok hab => exact .ok (hRS hab)

theorem symm {S : β → α → Prop} (h : SameEnd R x y) (hRS : ∀ {a b}, R a b → S b a) :
    SameEnd S y x := by
  cases h with
  | error f => exact .error f
  | ok hab => exact .ok (hRS hab)

theorem trans {S : β → γ → Prop} {T : α → γ → Prop} (h : SameEnd R x y) (h' : SameEnd S y z)
    (hRST : ∀ {a b c}, R a b → S b c → T a c) : SameEnd T x z := by
  cases h with
  | error f =>
    rw [h'.of_error]
    exact .error f
  | ok hab =>
    obtain ⟨c, rfl, hbc⟩ := h'.of_ok
    exact .ok (hRST hab hbc)

end SameEnd

/-- The same outcome, and twins. -/
def TwinResults (sr : Word) (r s : Outcome × Processor) : Prop := s.1 = r.1 ∧ Twin sr r.2 s.2

variable {now : Time}

theorem sr_loadInstruction (p : Processor) : p.loadInstruction.regs.sr = p.regs.sr := by
  unfold loadInstruction reportTrace
  dsimp only
  split
  · rfl
  · rfl

theorem Twin.poll (h : Twin sr p q) (now : Time) : SameEnd (Twin sr) (p.poll now) (q.poll now) := by
  unfold Processor.poll
  rw [h.tty_eq]
  obtain ⟨log, rfl⟩ := h
  cases p.tty.poll now with
  | error f => exact .error f
  | ok r => exact .ok ⟨_, rfl⟩

/-- Whether the next step is an OSR makes no difference to twins. -/
theorem Twin.readsSwitches (h : Twin sr p q) (hp : p.ReadsSwitches now) : q.ReadsSwitches now := by
  obtain ⟨hfetch, ⟨polled, hpoll, hdue⟩, hosr⟩ := hp
  obtain ⟨tty, events, htty, rfl⟩ := poll_eq_ok_iff.mp hpoll
  obtain ⟨log, rfl⟩ := h
  exact ⟨hfetch, ⟨_, poll_eq_ok_iff.mpr ⟨tty, events, htty, rfl⟩, hdue⟩, hosr⟩

/-- A fetch reads the switch register only for OSR. -/
theorem Twin.fetch (h : Twin sr p q) (hnext : p.fetchesNext = true)
    (hsr : sr = p.regs.sr ∨ ¬ p.ReadsSwitches now) :
    SameEnd (TwinResults sr) (p.fetch now) (q.fetch now) := by
  have hpolls := h.poll now
  unfold Processor.fetch
  cases hp : p.poll now with
  | error f =>
    rw [hp] at hpolls
    rw [hpolls.of_error]
    exact .error f
  | ok p' =>
    rw [hp] at hpolls
    obtain ⟨q', hq, h'⟩ := hpolls.of_ok
    rw [hq]
    dsimp only
    rw [h'.fields_eq, h'.tty_eq]
    split_ifs with hdue
    · exact .ok ⟨rfl, h'.interrupt⟩
    · have hsr' : sr = p'.loadInstruction.regs.sr ∨
          ∀ g, p'.loadInstruction.current = .operate (.group2 g) → g.osr = false := by
        rw [sr_loadInstruction, current_loadInstruction]
        rw [Bool.not_eq_true] at hdue
        obtain ⟨tty, events, -, rfl⟩ := poll_eq_ok_iff.mp hp
        refine hsr.imp_right ?_
        intro hno g hg
        rw [← Bool.not_eq_true]
        exact fun hosr => hno ⟨hnext, ⟨_, hp, hdue⟩, g, hg, hosr⟩
      exact .ok (h'.loadInstruction.beginInstruction hsr')

theorem Twin.execute (h : Twin sr p q) (a : Address) :
    SameEnd (TwinResults sr) (p.execute a) (q.execute a) := by
  have hexecuting := h.inCycle .execute
  unfold Processor.execute
  rw [h.current_eq] at hexecuting ⊢
  split
  · exact .ok ⟨rfl, hexecuting.refers _ a⟩
  · exact .error _

/-- Twins step alike, and remain twins, unless the step is an OSR and their switches differ. -/
theorem Twin.step (h : Twin sr p q) (hsr : sr = p.regs.sr ∨ ¬ p.ReadsSwitches now) :
    SameEnd (TwinResults sr) (p.step now) (q.step now) := by
  have hsame : q.nextCycle = p.nextCycle := by
    obtain ⟨log, rfl⟩ := h
    rfl
  rw [step_eq p, step_eq q, hsame]
  cases hnext : p.nextCycle with
  | fetch => exact h.fetch (nextCycle_eq_fetch_iff.mp hnext) hsr
  | defer pointer => exact .ok ⟨rfl, h.defer pointer⟩
  | execute a => exact h.execute a

/-- No step sets the switch register. -/
theorem sr_of_step {o : Outcome} (hs : p.step now = .ok (o, q)) : q.regs.sr = p.regs.sr := by
  have hends : SameEnd (TwinResults p.regs.sr) (p.step now) (p.step now) :=
    (Twin.refl p).step (.inl rfl)
  rw [hs] at hends
  obtain ⟨_, heq, -, htwin⟩ := hends.of_ok
  cases heq
  exact htwin.sr_eq

end Processor

end Pdp8
