import Mathlib.Data.List.Forall2
import Pdp8.Proofs.Interrupts
import Pdp8.Proofs.MajorStates
import Pdp8.Proofs.SwitchRegister

/-!
# Pdp8.Proofs.Tracing — the trace tells what happens, and changes nothing

A traced processor has a `Shadow` that does the same without a trace: whatever is done to the two,
they stay in the same state but for the trace switch and the log, and the log of the one has lines
of the trace that the other's has not.  There is one line for each fetch and each interrupt, and it
shows the processor as the step found it.
-/

namespace Pdp8

namespace Processor

/-- The processor without a trace, and with another log. -/
def untraced (log : List Event) (p : Processor) : Processor :=
  { p with traced := false, log := log }

/-- `q` does what `p` does, without a trace.  Since their logs were `base` and `base'` they have
reported the same events, but that `p` alone has reported some lines of a trace, newest first. -/
structure Shadow (base base' lines : List Event) (p q : Processor) : Prop where
  traced : p.traced = true
  log : ∃ events, p.log = events ++ base ∧ events.filter Event.isTraceLine = lines ∧
    q = p.untraced (events.filter (fun e => !e.isTraceLine) ++ base')

/-- What a step is to be traced as: an interrupt is told by the cycle it leaves behind. -/
def traceLine? (p q : Processor) : Option Event :=
  if p.fetchesNext then
    if q.cycle = .execute then some (.interrupted (p.traceState p.home))
    else some (.fetched (p.traceState p.home) p.nextWord)
  else none

/-- The line that the trace owes to a call. -/
def Call.traceLine? (call : Call) (p q : Processor) : Option Event :=
  match call with
  | .step _ => p.traceLine? q
  | _ => none

/-- The outcome of a call that is a step. -/
def outcomeOf (call : Call) (p : Processor) : Option Outcome :=
  match call with
  | .step now =>
    match p.step now with
    | .error _ => none
    | .ok (o, _) => some o
  | _ => none

variable {base base' lines : List Event} {p q : Processor} {now : Time}

theorem reportTrace_of_traced (event : Event) (h : p.traced = true) :
    p.reportTrace event = p.report [event] := by
  unfold reportTrace
  rw [h]
  rfl

/-- The processor when the next word has been read and decoded, and not yet been traced. -/
def loaded (p : Processor) : Processor :=
  { read p.home { p with fields := p.fields.latch, cycle := .fetch } with
    regs.ir := p.nextWord.opcode
    regs.pc := Word.successor p.regs.pc
    fetchedFrom := p.regs.pc
    current := .decode p.nextWord
    fields :=
      if (Instruction.decode p.nextWord).isJumpClass then p.fields.latch.release
      else p.fields.latch }

/-- PC has been advanced and the fields latched by then, but a line of the trace shows neither. -/
theorem loadInstruction_eq (p : Processor) :
    p.loadInstruction = p.loaded.reportTrace (.fetched (p.traceState p.home) p.nextWord) := by
  have hstate : p.loaded.traceState p.loaded.here = p.traceState p.home := by
    unfold loaded traceState
    cases (Instruction.decode p.nextWord).isJumpClass <;> rfl
  rw [← hstate]
  rfl

namespace Shadow

theorem start (log log' : List Event) (p : Processor) :
    Shadow log log' [] { p with traced := true, log := log } (p.untraced log') :=
  ⟨rfl, [], rfl, rfl, rfl⟩

/-- What the two have reported is compared anew from here on. -/
theorem restart (h : Shadow base base' lines p q) : Shadow p.log q.log [] p q := by
  obtain ⟨ht, events, -, -, rfl⟩ := h
  exact ⟨ht, [], rfl, rfl, rfl⟩

theorem exists_log (h : Shadow base base' lines p q) : ∃ log, q = p.untraced log := by
  obtain ⟨-, events, -, -, hq⟩ := h
  exact ⟨_, hq⟩

/-! ### One operation after another -/

section Operations

variable (h : Shadow base base' lines p q)

include h

/-- The same is done to both, and nothing is reported. -/
theorem update {p' q' : Processor} (ht : p'.traced = p.traced) (hlog : p'.log = p.log)
    (hq : q' = p'.untraced q.log) : Shadow base base' lines p' q' := by
  obtain ⟨htraced, events, hevents, hlines, rfl⟩ := h
  exact ⟨ht.trans htraced, events, hlog.trans hevents, hlines, hq⟩

theorem report {events : List Event} (hno : ∀ e ∈ events, e.isTraceLine = false) :
    Shadow base base' lines (p.report events) (q.report events) := by
  obtain ⟨ht, old, hlog, hlines, rfl⟩ := h
  have hno' : ∀ e ∈ events.reverse, e.isTraceLine = false :=
    fun e he => hno e (List.mem_reverse.mp he)
  have hnone : events.reverse.filter Event.isTraceLine = [] :=
    List.filter_eq_nil_iff.mpr fun e he => by rw [hno' e he]; exact Bool.false_ne_true
  have hall : events.reverse.filter (fun e => !e.isTraceLine) = events.reverse :=
    List.filter_eq_self.mpr fun e he => by rw [hno' e he]; rfl
  refine ⟨ht, events.reverse ++ old, ?_, ?_, ?_⟩
  · unfold Processor.report
    rw [hlog, List.append_assoc]
  · rw [List.filter_append, hnone, hlines]
    rfl
  · rw [List.filter_append, hall, List.append_assoc]
    rfl

/-- Only the processor that is traced reports a line of the trace. -/
theorem reportTrace {event : Event} (he : event.isTraceLine = true) (event' : Event) :
    Shadow base base' (event :: lines) (p.reportTrace event) (q.reportTrace event') := by
  obtain ⟨ht, old, hlog, hlines, rfl⟩ := h
  rw [reportTrace_of_traced event ht]
  refine ⟨ht, event :: old, ?_, ?_, ?_⟩
  · unfold Processor.report
    rw [hlog]
    rfl
  · rw [List.filter_cons_of_pos he, hlines]
  · rw [List.filter_cons_of_neg (by rw [he]; exact Bool.false_ne_true)]
    rfl

theorem read (a : Address) : Shadow base base' lines (p.read a) (q.read a) := by
  obtain ⟨log, rfl⟩ := h.exists_log
  have hno : ∀ e ∈ p.core.readEvents a, e.isTraceLine = false := by
    unfold Core.readEvents
    split_ifs <;> simp [Event.isTraceLine]
  exact (h.report hno).update rfl rfl rfl

theorem write (a : Address) (word : Word) :
    Shadow base base' lines (p.write a word) (q.write a word) := by
  obtain ⟨log, rfl⟩ := h.exists_log
  have hno : ∀ e ∈ p.core.writeEvents a, e.isTraceLine = false := by
    unfold Core.writeEvents
    split_ifs <;> simp [Event.isTraceLine]
  exact (h.report hno).update rfl rfl rfl

theorem skip : Shadow base base' lines p.skip q.skip := by
  obtain ⟨log, rfl⟩ := h.exists_log
  exact h.update rfl rfl rfl

theorem jump (target : Word) : Shadow base base' lines (p.jump target) (q.jump target) := by
  obtain ⟨log, rfl⟩ := h.exists_log
  exact h.update rfl rfl rfl

theorem inCycle (cycle : Cycle) :
    Shadow base base' lines { p with cycle := cycle } { q with cycle := cycle } := by
  obtain ⟨log, rfl⟩ := h.exists_log
  exact h.update rfl rfl rfl

theorem respond (code : Word) (response : IotResponse) :
    Shadow base base' lines (p.respond code response) (q.respond code response) := by
  obtain ⟨log, rfl⟩ := h.exists_log
  cases response with
  | skip => exact h.skip
  | done => exact h
  | notRecognised => exact h.report (by simp [Event.isTraceLine])

theorem transfer (code : Word) : Shadow base base' lines (p.transfer code) (q.transfer code) := by
  obtain ⟨log, rfl⟩ := h.exists_log
  unfold Processor.transfer
  split_ifs
  · exact h.update rfl rfl rfl
  · exact h.update rfl rfl rfl
  · refine respond ?_ _ _
    exact h.update rfl rfl rfl
  · refine respond ?_ _ _
    exact h.update rfl rfl rfl

theorem operate1 (g : Group1) : Shadow base base' lines (p.operate1 g) (q.operate1 g) := by
  obtain ⟨log, rfl⟩ := h.exists_log
  have hset : Shadow base base' lines (p.setLinkAc (g.apply p.linkAc))
      ((p.untraced log).setLinkAc (g.apply p.linkAc)) := h.update rfl rfl rfl
  unfold Processor.operate1
  split
  · exact hset.report (by simp [Event.isTraceLine])
  · exact hset

theorem operate2 (g : Group2) :
    (q.operate2 g).1 = (p.operate2 g).1 ∧
      Shadow base base' lines (p.operate2 g).2 (q.operate2 g).2 := by
  obtain ⟨log, rfl⟩ := h.exists_log
  have hlinkAc : (p.untraced log).linkAc = p.linkAc := rfl
  unfold Processor.operate2
  rw [hlinkAc]
  split_ifs
  · refine ⟨rfl, report ?_ (by simp [Event.isTraceLine])⟩
    exact h.skip.update rfl rfl rfl
  · exact ⟨rfl, h.skip.update rfl rfl rfl⟩
  · refine ⟨rfl, report ?_ (by simp [Event.isTraceLine])⟩
    exact h.update rfl rfl rfl
  · exact ⟨rfl, h.update rfl rfl rfl⟩

theorem operate (op : Operate) :
    (q.operate op).1 = (p.operate op).1 ∧
      Shadow base base' lines (p.operate op).2 (q.operate op).2 := by
  cases op with
  | group1 g => exact ⟨rfl, h.operate1 g⟩
  | group2 g => exact h.operate2 g
  | undefined word =>
    obtain ⟨log, rfl⟩ := h.exists_log
    exact ⟨rfl, h.report (by simp [Event.isTraceLine])⟩

theorem beginInstruction :
    q.beginInstruction.1 = p.beginInstruction.1 ∧
      Shadow base base' lines p.beginInstruction.2 q.beginInstruction.2 := by
  obtain ⟨log, rfl⟩ := h.exists_log
  have hcurrent : (p.untraced log).current = p.current := rfl
  unfold Processor.beginInstruction
  rw [hcurrent]
  cases p.current with
  | memory op operand => exact ⟨rfl, h⟩
  | jump operand =>
    dsimp only
    split
    · exact ⟨rfl, h⟩
    · exact ⟨rfl, h.jump _⟩
  | iot code => exact ⟨rfl, h.transfer code⟩
  | operate op => exact h.operate op

theorem isz (a : Address) : Shadow base base' lines (p.isz a) (q.isz a) := by
  obtain ⟨log, rfl⟩ := h.exists_log
  have hwritten := (h.read a).write a (Word.successor (p.core.peek a))
  unfold Processor.isz
  dsimp only
  split_ifs with hzero hzero' hzero'
  · exact hwritten.skip
  · exact absurd hzero hzero'
  · exact absurd hzero' hzero
  · exact hwritten

theorem refers (op : MemoryOp) (a : Address) :
    Shadow base base' lines (Processor.refers op a p) (Processor.refers op a q) := by
  obtain ⟨log, rfl⟩ := h.exists_log
  cases op with
  | isz => exact h.isz a
  | and => exact (h.read a).update rfl rfl rfl
  | tad => exact (h.read a).update rfl rfl rfl
  | dca => exact (h.write a p.regs.ac).update rfl rfl rfl
  | jms =>
    have hjumped : Shadow base base' lines { p with fields := p.fields.jump }
        { p.untraced log with fields := p.fields.jump } := h.update rfl rfl rfl
    exact (hjumped.write _ p.regs.pc).update rfl rfl rfl

theorem loadPointer (a : Address) :
    Shadow base base' lines (p.loadPointer a) (q.loadPointer a) := by
  obtain ⟨log, rfl⟩ := h.exists_log
  unfold Processor.loadPointer
  split
  · exact (h.read a).write a _
  · exact h.read a

theorem completeJump : Shadow base base' lines p.completeJump q.completeJump := by
  obtain ⟨log, rfl⟩ := h.exists_log
  have hcurrent : (p.untraced log).current = p.current := rfl
  unfold Processor.completeJump
  rw [hcurrent]
  split
  · exact h.jump _
  · exact h

theorem defer (pointer : Word) : Shadow base base' lines (p.defer pointer) (q.defer pointer) := by
  obtain ⟨log, rfl⟩ := h.exists_log
  rw [defer_eq_completeJump, defer_eq_completeJump]
  exact ((h.inCycle .defer).loadPointer _).completeJump

/-- The line of an interrupt shows the fields that are saved, and not the cleared ones. -/
theorem interrupt :
    Shadow base base' (.interrupted (p.traceState p.home) :: lines) p.interrupt q.interrupt := by
  obtain ⟨log, rfl⟩ := h.exists_log
  have hreported : Shadow base base' lines (p.report p.fields.acknowledgeEvents)
      ((p.untraced log).report p.fields.acknowledgeEvents) :=
    h.report (by simp [Extension.acknowledgeEvents, Event.isTraceLine])
  have hline : Shadow base base' (.interrupted (p.traceState p.home) :: lines)
      ((p.report p.fields.acknowledgeEvents).reportTrace (.interrupted (p.traceState p.home)))
      ((p.untraced log).report p.fields.acknowledgeEvents) :=
    hreported.reportTrace rfl (.interrupted (p.traceState p.home))
  rw [reportTrace_of_traced _ hreported.traced] at hline
  have hentered : Shadow base base' (.interrupted (p.traceState p.home) :: lines)
      { (p.report p.fields.acknowledgeEvents).report [.interrupted (p.traceState p.home)] with
        fields := p.fields.acknowledge, cycle := .execute }
      { (p.untraced log).report p.fields.acknowledgeEvents with
        fields := p.fields.acknowledge, cycle := .execute } := hline.update rfl rfl rfl
  unfold Processor.interrupt
  dsimp only
  rw [reportTrace_of_traced _ hreported.traced]
  exact (hentered.write .zero p.regs.pc).update rfl rfl rfl

/-- The line of a fetch shows the registers that the instruction has not yet changed. -/
theorem loadInstruction :
    Shadow base base' (.fetched (p.traceState p.home) p.nextWord :: lines)
      p.loadInstruction q.loadInstruction := by
  obtain ⟨log, rfl⟩ := h.exists_log
  have hlatched : Shadow base base' lines { p with fields := p.fields.latch, cycle := .fetch }
      { p.untraced log with fields := p.fields.latch, cycle := .fetch } := h.update rfl rfl rfl
  have hloaded : Shadow base base' lines p.loaded (p.untraced log).loaded :=
    (hlatched.read p.home).update rfl rfl rfl
  rw [loadInstruction_eq, loadInstruction_eq]
  exact hloaded.reportTrace rfl _

end Operations

end Shadow

/-! ## Polls and steps -/

theorem events_of_servePrinter {t t' : Teletype} {events : List Event}
    (h : t.servePrinter now = .ok (t', events)) :
    events = [] ∨ events = [.characterPrinted t.printerChar] := by
  unfold Teletype.servePrinter at h
  split at h
  · split at h
    · cases h
      exact .inr rfl
    · cases h
      exact .inl rfl
    · cases h
  · cases h
    exact .inl rfl

theorem events_of_serveKeyboard {t t' : Teletype} {events : List Event}
    (h : t.serveKeyboard now = .ok (t', events)) :
    events = [] ∨ ∃ b, events = [.characterTyped b] := by
  unfold Teletype.serveKeyboard at h
  split at h
  · split at h
    · cases h
      exact .inr ⟨_, rfl⟩
    · cases h
      exact .inl rfl
    · cases h
  · cases h
    exact .inl rfl

/-- Characters that move are no lines of a trace. -/
theorem isTraceLine_of_poll {t t' : Teletype} {events : List Event}
    (h : t.poll now = .ok (t', events)) : ∀ e ∈ events, e.isTraceLine = false := by
  unfold Teletype.poll at h
  split at h
  · cases h
  · rename_i hprinter
    split at h
    · cases h
    · rename_i hkeyboard
      cases h
      rcases events_of_servePrinter hprinter with rfl | rfl <;>
        rcases events_of_serveKeyboard hkeyboard with rfl | ⟨b, rfl⟩ <;>
        simp [Event.isTraceLine]

namespace Shadow

theorem poll (h : Shadow base base' lines p q) (now : Time) :
    SameEnd (fun polled polled' => p.poll now = .ok polled ∧ Shadow base base' lines polled polled')
      (p.poll now) (q.poll now) := by
  obtain ⟨log, rfl⟩ := h.exists_log
  have htty : (p.untraced log).tty = p.tty := rfl
  unfold Processor.poll
  rw [htty]
  cases hpoll : p.tty.poll now with
  | error f => exact .error f
  | ok r =>
    obtain ⟨tty, events⟩ := r
    have hreported := h.report (isTraceLine_of_poll hpoll)
    exact .ok ⟨rfl, hreported.update rfl rfl rfl⟩

end Shadow

/-- What a step and that of its shadow come to: the same outcome, and one line more of the trace if
there is to be one. -/
def ShadowResults (base base' lines : List Event) (p : Processor) (r s : Outcome × Processor) :
    Prop :=
  s.1 = r.1 ∧ Shadow base base' ((p.traceLine? r.2).toList ++ lines) r.2 s.2

theorem traceLine?_of_not_fetchesNext (h : p.fetchesNext = false) (q : Processor) :
    p.traceLine? q = none := by
  unfold traceLine?
  rw [h]
  rfl

namespace Shadow

section Steps

variable (h : Shadow base base' lines p q)

include h

theorem fetch (hnext : p.fetchesNext = true) (now : Time) :
    SameEnd (ShadowResults base base' lines p) (p.fetch now) (q.fetch now) := by
  have hpolls := h.poll now
  cases hp : p.poll now with
  | error f =>
    rw [hp] at hpolls
    unfold Processor.fetch
    rw [hp, hpolls.of_error]
    exact .error f
  | ok polled =>
    rw [hp] at hpolls
    obtain ⟨polled', hq, -, h'⟩ := hpolls.of_ok
    obtain ⟨log, rfl⟩ := h'.exists_log
    have hdue : (polled.untraced log).fields.willInterrupt
        (polled.untraced log).tty.interruptRequest =
      polled.fields.willInterrupt polled.tty.interruptRequest := rfl
    have hstate : polled.traceState polled.home = p.traceState p.home := by
      obtain ⟨tty, events, -, rfl⟩ := poll_eq_ok_iff.mp hp
      rfl
    have hword : polled.nextWord = p.nextWord := nextWord_of_poll hp
    rw [fetch_eq_of_poll hp, fetch_eq_of_poll hq, hdue]
    split_ifs
    · -- an interrupt leaves an execute cycle behind, a fetch does not
      refine .ok ⟨rfl, ?_⟩
      unfold traceLine?
      rw [hnext, ← hstate]
      exact h'.interrupt
    · obtain ⟨ho, hbegun⟩ := h'.loadInstruction.beginInstruction
      refine .ok ⟨ho, ?_⟩
      unfold traceLine?
      rw [hnext, (sameControl_fetch _).cycle, cycle_loadInstruction, ← hstate, ← hword]
      exact hbegun

theorem execute (hnext : p.fetchesNext = false) (a : Address) :
    SameEnd (ShadowResults base base' lines p) (p.execute a) (q.execute a) := by
  have hcycle := h.inCycle .execute
  obtain ⟨log, rfl⟩ := h.exists_log
  have hcurrent : (p.untraced log).current = p.current := rfl
  unfold Processor.execute
  rw [hcurrent]
  split
  · refine .ok ⟨rfl, ?_⟩
    rw [traceLine?_of_not_fetchesNext hnext]
    exact hcycle.refers _ a
  · exact .error _

/-- A step is the same without a trace. -/
theorem step (now : Time) :
    SameEnd (ShadowResults base base' lines p) (p.step now) (q.step now) := by
  have hsame : q.nextCycle = p.nextCycle := by
    obtain ⟨log, rfl⟩ := h.exists_log
    rfl
  rw [step_eq p, step_eq q, hsame]
  cases hnext : p.nextCycle with
  | fetch => exact h.fetch (nextCycle_eq_fetch_iff.mp hnext) now
  | defer pointer =>
    have hno : p.fetchesNext = false := fetchesNext_eq_false (by rw [hnext]; exact nofun)
    refine .ok ⟨rfl, ?_⟩
    rw [traceLine?_of_not_fetchesNext hno]
    exact h.defer pointer
  | execute a =>
    have hno : p.fetchesNext = false := fetchesNext_eq_false (by rw [hnext]; exact nofun)
    exact h.execute hno a

/-- Whatever is done to the two, the one stays the other's shadow.  Only a step can add a line to
the trace. -/
theorem carryOut (call : Call) :
    q.outcomeOf call = p.outcomeOf call ∧
      SameEnd (fun p' q' => Shadow base base' ((call.traceLine? p p').toList ++ lines) p' q')
        (p.carryOut call) (q.carryOut call) := by
  have hstep := h.step
  obtain ⟨log, rfl⟩ := h.exists_log
  cases call with
  | step now =>
    specialize hstep now
    unfold outcomeOf Processor.carryOut
    dsimp only
    cases hp : p.step now with
    | error f =>
      rw [hp] at hstep
      rw [hstep.of_error]
      exact ⟨rfl, .error f⟩
    | ok r =>
      rw [hp] at hstep
      obtain ⟨s, hq, ho, hshadow⟩ := hstep.of_ok
      rw [hq]
      exact ⟨congrArg some ho, .ok hshadow⟩
  | goIdle => exact ⟨rfl, .ok (h.update rfl rfl rfl)⟩
  | panelRead a => exact ⟨rfl, .ok (h.read a)⟩
  | panelWrite a word => exact ⟨rfl, .ok (h.write a word)⟩
  | setRegisters regs => exact ⟨rfl, .ok (h.update rfl rfl rfl)⟩
  | setFields fields => exact ⟨rfl, .ok (h.update rfl rfl rfl)⟩
  | connect core tty => exact ⟨rfl, .ok (h.update rfl rfl rfl)⟩

end Steps

end Shadow

/-! ## Runs -/

/-- A call that has been carried out. -/
structure Deed where
  call : Call
  before : Processor
  /-- The outcome, if it was a step. -/
  outcome : Option Outcome
  after : Processor

/-- Calls carried out one after another, up to the first that fails, with the fault of that one. -/
def deeds : List Call → Processor → List Deed × Option Fault
  | [], _ => ([], none)
  | call :: calls, p =>
    match p.carryOut call with
    | .error f => ([], some f)
    | .ok q => (⟨call, p, p.outcomeOf call, q⟩ :: (deeds calls q).1, (deeds calls q).2)

/-- The first part of a line of the trace: where the processor is to fetch from, and what it
holds. -/
def standing (p : Processor) : String :=
  "INFO PC=" ++ Octal.text p.fields.instructionField.toNat ++ "." ++ Octal.word p.regs.pc
    ++ "  L.AC=" ++ Octal.text p.regs.link.toNat ++ "." ++ Octal.word p.regs.ac
    ++ "  IF=" ++ Octal.text p.fields.instructionField.toNat
    ++ "  DF=" ++ Octal.text p.fields.dataField.toNat

theorem standing_eq (p : Processor) :
    p.standing = "INFO" ++ " " ++ (p.traceState p.home).text := by
  have hinfo : ("INFO PC=" : String) = "INFO" ++ " " ++ "PC=" := by decide
  unfold standing TraceState.text Address.text linkAcText
  rw [hinfo]
  simp only [String.append_assoc]
  rfl

theorem line_interrupted (p : Processor) :
    (Event.interrupted (p.traceState p.home)).line = p.standing ++ "  interrupt" := by
  have hline : (Event.interrupted (p.traceState p.home)).line =
      "INFO" ++ " " ++ ((p.traceState p.home).text ++ "  interrupt") := rfl
  rw [hline, standing_eq]
  simp only [String.append_assoc]

theorem line_fetched (p : Processor) (word : Word) :
    (Event.fetched (p.traceState p.home) word).line =
      p.standing ++ "  IR=" ++ Octal.word word ++ "  "
        ++ Instruction.disassemble word p.regs.pc := by
  have hline : (Event.fetched (p.traceState p.home) word).line =
      "INFO" ++ " " ++ ((p.traceState p.home).text ++ "  IR=" ++ Octal.word word ++ "  "
        ++ Instruction.disassemble word p.regs.pc) := rfl
  rw [hline, standing_eq]
  simp only [String.append_assoc]

namespace Deed

/-- The events that were reported, oldest first. -/
def events (d : Deed) : List Event :=
  (d.after.log.take (d.after.log.length - d.before.log.length)).reverse

/-- What the trace is to say of a call, going by the states before and after it: nothing, unless it
was a step that fetched an instruction, or took an interrupt in place of a fetch. -/
def text? (d : Deed) : Option String :=
  match d.call with
  | .step _ =>
    if d.before.fetchesNext then
      if d.after.cycle = .execute then some (d.before.standing ++ "  interrupt")
      else
        some (d.before.standing ++ "  IR=" ++ Octal.word d.before.nextWord ++ "  "
          ++ Instruction.disassemble d.before.nextWord d.before.regs.pc)
    else none
  | _ => none

/-- The same call without a trace: the same outcome, states that differ in the trace switch and the
log only, and the same events but for the lines of the trace. -/
structure Same (d d' : Deed) : Prop where
  call : d'.call = d.call
  outcome : d'.outcome = d.outcome
  before : d'.before = d.before.untraced d'.before.log
  after : d'.after = d.after.untraced d'.after.log
  events : d'.events = d.events.filter fun e => !e.isTraceLine

/-- What the trace says of a call is the line that it owes to it. -/
theorem map_line_traceLine? (d : Deed) :
    (d.call.traceLine? d.before d.after).map Event.line = d.text? := by
  unfold text? Call.traceLine? Processor.traceLine?
  cases d.call with
  | step now =>
    dsimp only
    split_ifs
    · exact congrArg some (line_interrupted _)
    · exact congrArg some (line_fetched _ _)
    · rfl
  | goIdle => rfl
  | panelRead a => rfl
  | panelWrite a word => rfl
  | setRegisters regs => rfl
  | setFields fields => rfl
  | connect core tty => rfl

/-- The events of a call are found at the head of the log. -/
theorem events_eq {d : Deed} {events : List Event} (h : d.after.log = events ++ d.before.log) :
    d.events = events.reverse := by
  unfold Deed.events
  rw [h, List.length_append, Nat.add_sub_cancel, List.take_left]

end Deed

/-- What the trace tells of a call is what has been done. -/
structure Deed.Told (d : Deed) : Prop where
  /-- An interrupt has stored PC, and has saved the fields. -/
  interrupted : d.text? ≠ none → d.after.cycle = .execute →
    d.after.core.last = ⟨.zero, d.before.regs.pc⟩ ∧
      d.after.fields.savedInstructionField = d.before.fields.instructionField ∧
      d.after.fields.savedDataField = d.before.fields.dataField
  /-- A fetch has read a word, from where PC was, and has decoded it. -/
  fetched : d.text? ≠ none → d.after.cycle ≠ .execute →
    d.after.core.last = ⟨d.before.home, d.before.nextWord⟩ ∧
      d.after.fetchedFrom = d.before.regs.pc ∧ d.after.current = .decode d.before.nextWord
  /-- Of what has left the instruction under way the trace tells nothing. -/
  untold : d.text? = none →
    d.after.current = d.before.current ∧ d.after.fetchedFrom = d.before.fetchedFrom

theorem instruction_of_step {o : Outcome} (hnext : p.fetchesNext = false)
    (hs : p.step now = .ok (o, q)) : q.current = p.current ∧ q.fetchedFrom = p.fetchedFrom := by
  rw [step_eq] at hs
  cases hc : p.nextCycle with
  | fetch =>
    rw [nextCycle_eq_fetch_iff.mp hc] at hnext
    cases hnext
  | defer pointer =>
    rw [hc] at hs
    cases hs
    exact ⟨current_defer p pointer, fetchedFrom_defer p pointer⟩
  | execute a =>
    rw [hc] at hs
    dsimp only at hs
    unfold execute at hs
    split at hs
    · rename_i op operand hcurrent
      cases hs
      have hcontrol := sameControl_refers { p with cycle := .execute } op a
      exact ⟨hcontrol.current, hcontrol.fetchedFrom⟩
    · cases hs

namespace Deed

theorem told_of_untold {d : Deed} (htext : d.text? = none)
    (hsame : d.after.current = d.before.current ∧ d.after.fetchedFrom = d.before.fetchedFrom) :
    d.Told :=
  ⟨fun h => absurd htext h, fun h => absurd htext h, fun _ => hsame⟩

theorem told_of_step {d : Deed} {o : Outcome} (hcall : d.call = .step now)
    (hs : d.before.step now = .ok (o, d.after)) : d.Told := by
  cases hnext : d.before.fetchesNext with
  | false =>
    refine told_of_untold ?_ (instruction_of_step hnext hs)
    unfold text?
    rw [hcall, hnext]
    rfl
  | true =>
    have htext : d.text? ≠ none := by
      unfold text?
      rw [hcall, hnext]
      dsimp only
      rw [if_pos rfl]
      split_ifs <;> exact nofun
    rw [step_of_fetchesNext hnext, fetch_eq_ok_iff] at hs
    obtain ⟨polled, hpoll, ⟨-, -, hafter⟩ | ⟨-, hafter⟩⟩ := hs
    · obtain ⟨tty, events, -, rfl⟩ := poll_eq_ok_iff.mp hpoll
      refine ⟨fun _ _ => ?_, fun _ h => ?_, fun h => absurd h htext⟩
      · rw [hafter, fields_interrupt, core_interrupt, Core.last_write]
        exact ⟨rfl, rfl, rfl⟩
      · rw [hafter] at h
        exact absurd (cycle_interrupt _) h
    · have hq : d.after = polled.loadInstruction.beginInstruction.2 := congrArg Prod.snd hafter
      have hcontrol := sameControl_fetch polled
      refine ⟨fun _ h => ?_, fun _ _ => ?_, fun h => absurd h htext⟩
      · rw [hq, hcontrol.cycle, cycle_loadInstruction] at h
        cases h
      · rw [hq, core_fetch, hcontrol.fetchedFrom, hcontrol.current, fetchedFrom_loadInstruction,
          current_loadInstruction, nextWord_of_poll hpoll]
        obtain ⟨tty, events, -, rfl⟩ := poll_eq_ok_iff.mp hpoll
        exact ⟨rfl, rfl, rfl⟩

theorem told_of_carryOut {d : Deed} (hdone : d.before.carryOut d.call = .ok d.after) : d.Told := by
  obtain ⟨call, p, outcome, q⟩ := d
  dsimp only at hdone
  cases call with
  | step now =>
    unfold carryOut at hdone
    dsimp only at hdone
    cases hs : p.step now with
    | error f =>
      rw [hs] at hdone
      cases hdone
    | ok r =>
      obtain ⟨o, q'⟩ := r
      rw [hs] at hdone
      cases hdone
      exact told_of_step rfl hs
  | goIdle =>
    cases hdone
    exact told_of_untold rfl ⟨rfl, rfl⟩
  | panelRead a =>
    cases hdone
    exact told_of_untold rfl ⟨rfl, rfl⟩
  | panelWrite a word =>
    cases hdone
    exact told_of_untold rfl ⟨rfl, rfl⟩
  | setRegisters regs =>
    cases hdone
    exact told_of_untold rfl ⟨rfl, rfl⟩
  | setFields fields =>
    cases hdone
    exact told_of_untold rfl ⟨rfl, rfl⟩
  | connect core tty =>
    cases hdone
    exact told_of_untold rfl ⟨rfl, rfl⟩

end Deed

/-- How a run with a trace and the same run without one compare. -/
structure Faithful (on off : List Deed × Option Fault) : Prop where
  /-- What the trace tells of a call is what has been done. -/
  told : ∀ d ∈ on.1, d.Told
  /-- The events of a call are those that it has added to the log. -/
  reported : ∀ d ∈ on.1 ++ off.1, d.after.log = d.events.reverse ++ d.before.log
  /-- The trace has a line for each fetch and each interrupt, in order, and no others. -/
  lines : ((on.1.flatMap Deed.events).filter Event.isTraceLine).map Event.line =
    on.1.filterMap Deed.text?
  /-- Apart from them nothing differs. -/
  same : List.Forall₂ Deed.Same on.1 off.1
  fault : off.2 = on.2

/-- Where nothing was done there is nothing to tell. -/
theorem faithful_nil (f : Option Fault) : Faithful ([], f) ([], f) :=
  ⟨fun _ hd => absurd hd List.not_mem_nil, fun _ hd => absurd hd List.not_mem_nil, rfl, .nil, rfl⟩

/-- One call more, at the head of a run. -/
theorem Faithful.cons {d d' : Deed} {on off : List Deed × Option Fault}
    (hdone : d.before.carryOut d.call = .ok d.after) (hcall : d'.call = d.call)
    (houtcome : d'.outcome = d.outcome) (hbefore : Shadow base base' lines d.before d'.before)
    (hafter : Shadow d.before.log d'.before.log (d.call.traceLine? d.before d.after).toList
      d.after d'.after)
    (hrest : Faithful on off) : Faithful (d :: on.1, on.2) (d' :: off.1, off.2) := by
  obtain ⟨log, hsame⟩ := hbefore.exists_log
  obtain ⟨-, new, hlog, hlines, hshadow⟩ := hafter
  have hlog' : d'.after.log = new.filter (fun e => !e.isTraceLine) ++ d'.before.log := by
    rw [hshadow]
    rfl
  have hevents := Deed.events_eq hlog
  have hevents' := Deed.events_eq hlog'
  constructor
  · exact List.forall_mem_cons.mpr ⟨Deed.told_of_carryOut hdone, hrest.told⟩
  · have hd : d.after.log = d.events.reverse ++ d.before.log := by
      rw [hevents, List.reverse_reverse, hlog]
    have hd' : d'.after.log = d'.events.reverse ++ d'.before.log := by
      rw [hevents', List.reverse_reverse, hlog']
    intro e he
    have hall := hrest.reported e
    simp only [List.cons_append, List.mem_cons, List.mem_append] at he hall
    rcases he with rfl | he | rfl | he
    · exact hd
    · exact hall (.inl he)
    · exact hd'
    · exact hall (.inr he)
  · have hfilter : d.events.filter Event.isTraceLine =
        (d.call.traceLine? d.before d.after).toList := by
      rw [hevents, List.filter_reverse, hlines]
      cases d.call.traceLine? d.before d.after <;> rfl
    rw [List.flatMap_cons, List.filter_append, List.map_append, hrest.lines, hfilter,
      List.filterMap_cons, ← d.map_line_traceLine?]
    cases d.call.traceLine? d.before d.after <;> rfl
  · refine .cons ⟨hcall, houtcome, ?_, ?_, ?_⟩ hrest.same
    · rw [hsame]
      rfl
    · rw [hshadow]
      rfl
    · rw [hevents', hevents, List.filter_reverse]
  · exact hrest.fault

/-- A processor and its shadow have the same runs, with a trace and without. -/
theorem faithful_of_shadow (h : Shadow base base' lines p q) (calls : List Call) :
    Faithful (deeds calls p) (deeds calls q) := by
  induction calls generalizing base base' lines p q with
  | nil => exact faithful_nil none
  | cons call calls ih =>
    -- compared anew before each call, the logs differ in the line of that call alone
    obtain ⟨houtcome, hends⟩ := h.restart.carryOut call
    unfold deeds
    cases hp : p.carryOut call with
    | error f =>
      rw [hp] at hends
      rw [hends.of_error]
      exact faithful_nil (some f)
    | ok p' =>
      rw [hp] at hends
      obtain ⟨q', hq, h'⟩ := hends.of_ok
      rw [hq]
      rw [List.append_nil] at h'
      exact .cons hp rfl houtcome h h' (ih h')

/-- The trace of a run from any state is faithful, and changes nothing. -/
theorem trace_faithful (calls : List Call) (p : Processor) (log log' : List Event) :
    Faithful (deeds calls { p with traced := true, log := log }) (deeds calls (p.untraced log')) :=
  faithful_of_shadow (.start log log' p) calls

end Processor

end Pdp8
