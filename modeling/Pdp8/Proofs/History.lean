import Pdp8.Proofs.Interrupts
import Pdp8.Proofs.Refinement

/-!
# Pdp8.Proofs.History — when an interrupt is taken

A run is a history of steps, and of requests from outside between them.  The interrupt system
keeps four bits of it: whether there has been an ION, whether it is in effect, whether a change of
field holds interrupts off, and whether a request is waiting.  `Tracks` says which happenings each
of the bits stands for, and `acknowledges_iff_history` that an interrupt is taken exactly when they
say so.  Where none can be due, a run goes on with the next instruction (`exists_run_of_quiet`).
-/

namespace Pdp8

open Instruction

/-- What the interrupt system may have to remember. -/
inductive Happening
  /-- A request from outside the processor. -/
  | requested
  /-- An interrupt was taken. -/
  | acknowledged
  /-- A word was fetched from a place; an ION, IOF or field instruction is carried out with it. -/
  | fetched (place : Address) (word : Word)
  /-- An instruction went through another cycle. -/
  | continued
  deriving DecidableEq, Repr

/-- What the step from one processor to another was. -/
def Processor.happening (p q : Processor) : Happening :=
  if p.atBoundary then
    if q.cycle = .execute then .acknowledged else .fetched p.home p.nextWord
  else .continued

/-- The processors that steps and requests lead to, each with the happenings so far, the latest
first. -/
inductive Run (start : Processor) : List Happening → Processor → Prop
  | start : Run start [] start
  | step {h : List Happening} {p q : Processor} {now : Time} {o : Outcome} :
    Run start h p → p.step now = .ok (o, q) → Run start (p.happening q :: h) q
  | request {h : List Happening} {p : Processor} :
    Run start h p → Run start (.requested :: h) (p.onFields Extension.request)

namespace Happening

/-- Whether a happening is the fetch of a word with some property. -/
def fetches (test : Word → Bool) : Happening → Bool
  | .fetched _ word => test word
  | _ => false

/-- IOF and interrupts, which turn interrupts off. -/
def turnsOff (e : Happening) : Bool := e == .acknowledged || e.fetches (· == iof)

end Happening

open Happening

/-- The happenings after the latest one that meets a condition. -/
def since (stop : Happening → Bool) (h : List Happening) : List Happening :=
  h.takeWhile (!stop ·)

/-- There has been an ION since interrupts were last turned off. -/
def IonSince (h : List Happening) : Prop :=
  ∃ place, .fetched place ion ∈ since turnsOff h

/-- There has been an ION since interrupts were last turned off, and a fetch since that ION. -/
def IonInEffect (h : List Happening) : Prop :=
  ∃ later place earlier, since turnsOff h = later ++ .fetched place ion :: earlier ∧
    ∃ place' word, .fetched place' word ∈ later

/-- There has been a CIF or CDF CIF since the latest fetch of a JMP or JMS. -/
def ChangeSince (h : List Happening) : Prop :=
  ∃ place word, .fetched place word ∈ since (fetches jumps) h ∧ changesField word = true

/-- There has been a request since the latest interrupt. -/
def RequestSince (h : List Happening) : Prop :=
  .requested ∈ since (· == .acknowledged) h

/-! ## Histories, a happening at a time -/

section Since

variable {stop : Happening → Bool} {e : Happening} {h : List Happening}

theorem since_cons_of_stop (he : stop e = true) : since stop (e :: h) = [] := by
  unfold since
  rw [List.takeWhile_cons, he]
  rfl

theorem since_cons (he : stop e = false) : since stop (e :: h) = e :: since stop h := by
  unfold since
  rw [List.takeWhile_cons, he]
  rfl

/-- Nothing before a happening that meets the condition is among them. -/
theorem mem_of_mem_since {later earlier : List Happening} (he : stop e = true) {x : Happening}
    (hx : x ∈ since stop (later ++ e :: earlier)) : x ∈ later := by
  induction later with
  | nil =>
    rw [List.nil_append, since_cons_of_stop he] at hx
    cases hx
  | cons y later ih =>
    cases hy : stop y with
    | true =>
      rw [List.cons_append, since_cons_of_stop hy] at hx
      cases hx
    | false =>
      rw [List.cons_append, since_cons hy, List.mem_cons] at hx
      rcases hx with rfl | hx
      · exact List.mem_cons_self
      · exact List.mem_cons_of_mem _ (ih hx)

end Since

section Cons

variable {h : List Happening} {place : Address} {word : Word} {e : Happening}

theorem not_ionSince_acknowledged : ¬ IonSince (.acknowledged :: h) := by
  rintro ⟨place, hmem⟩
  rw [since_cons_of_stop rfl] at hmem
  cases hmem

theorem not_ionInEffect_acknowledged : ¬ IonInEffect (.acknowledged :: h) := by
  rintro ⟨later, place, earlier, heq, -⟩
  rw [since_cons_of_stop rfl] at heq
  cases later <;> cases heq

theorem changeSince_acknowledged : ChangeSince (.acknowledged :: h) ↔ ChangeSince h := by
  unfold ChangeSince
  rw [since_cons rfl]
  simp

theorem not_requestSince_acknowledged : ¬ RequestSince (.acknowledged :: h) := by
  unfold RequestSince
  rw [since_cons_of_stop rfl]
  exact List.not_mem_nil

theorem turnsOff_fetched : (Happening.fetched place word).turnsOff = decide (word = iof) := by
  unfold turnsOff fetches
  simp [BEq.beq]

theorem ionSince_fetched :
    IonSince (.fetched place word :: h) ↔ word = ion ∨ word ≠ iof ∧ IonSince h := by
  unfold IonSince
  by_cases hw : word = iof
  · subst hw
    rw [since_cons_of_stop (turnsOff_fetched.trans rfl)]
    simp [iof, ion]
  · rw [since_cons (turnsOff_fetched.trans (decide_eq_false hw))]
    simp [hw, exists_or, eq_comm]

/-- A fetch brings an earlier ION into effect. -/
theorem ionInEffect_fetched :
    IonInEffect (.fetched place word :: h) ↔ word ≠ iof ∧ IonSince h := by
  unfold IonInEffect
  by_cases hw : word = iof
  · subst hw
    rw [since_cons_of_stop (turnsOff_fetched.trans rfl)]
    simp
  rw [since_cons (turnsOff_fetched.trans (decide_eq_false hw))]
  constructor
  · rintro ⟨later, at', earlier, heq, place', word', hmem⟩
    cases later with
    | nil => cases hmem
    | cons x later =>
      rw [List.cons_append, List.cons.injEq] at heq
      refine ⟨hw, at', ?_⟩
      rw [heq.2]
      exact List.mem_append_right _ List.mem_cons_self
  · rintro ⟨-, at', hmem⟩
    obtain ⟨earlier, rest, heq⟩ := List.append_of_mem hmem
    refine ⟨.fetched place word :: earlier, at', rest, ?_, place, word, List.mem_cons_self⟩
    rw [heq]
    rfl

theorem changeSince_fetched :
    ChangeSince (.fetched place word :: h) ↔
      changesField word = true ∨ jumps word = false ∧ ChangeSince h := by
  unfold ChangeSince
  cases hj : jumps word with
  | true =>
    rw [since_cons_of_stop (show fetches jumps (.fetched place word) = true from hj)]
    simp [changesField_of_jumps hj]
  | false =>
    rw [since_cons (show fetches jumps (.fetched place word) = false from hj)]
    simp only [List.mem_cons, Happening.fetched.injEq, true_and]
    constructor
    · rintro ⟨place', word', ⟨rfl, rfl⟩ | hmem, hc⟩
      · exact .inl hc
      · exact .inr ⟨place', word', hmem, hc⟩
    · rintro (hc | ⟨place', word', hmem, hc⟩)
      · exact ⟨place, word, .inl ⟨rfl, rfl⟩, hc⟩
      · exact ⟨place', word', .inr hmem, hc⟩

theorem requestSince_fetched : RequestSince (.fetched place word :: h) ↔ RequestSince h := by
  unfold RequestSince
  rw [since_cons rfl, List.mem_cons]
  simp

/-! A request, or another cycle of an instruction, is nothing to the first three. -/

theorem ionSince_cons (he : e = .requested ∨ e = .continued) : IonSince (e :: h) ↔ IonSince h := by
  unfold IonSince
  rcases he with rfl | rfl
  · rw [since_cons rfl]
    simp
  · rw [since_cons rfl]
    simp

theorem ionInEffect_cons (he : e = .requested ∨ e = .continued) :
    IonInEffect (e :: h) ↔ IonInEffect h := by
  have hne (place : Address) (word : Word) : e ≠ .fetched place word := by
    rcases he with rfl | rfl <;> exact nofun
  have hoff : e.turnsOff = false := by
    rcases he with rfl | rfl <;> rfl
  unfold IonInEffect
  rw [since_cons hoff]
  constructor
  · rintro ⟨later, place, earlier, heq, place', word, hmem⟩
    cases later with
    | nil => cases hmem
    | cons x later =>
      rw [List.cons_append, List.cons.injEq] at heq
      rcases List.mem_cons.mp hmem with rfl | hmem
      · exact absurd heq.1 (hne _ _)
      · exact ⟨later, place, earlier, heq.2, place', word, hmem⟩
  · rintro ⟨later, place, earlier, heq, place', word, hmem⟩
    refine ⟨e :: later, place, earlier, ?_, place', word, List.mem_cons_of_mem _ hmem⟩
    rw [heq]
    rfl

theorem changeSince_cons (he : e = .requested ∨ e = .continued) :
    ChangeSince (e :: h) ↔ ChangeSince h := by
  unfold ChangeSince
  rcases he with rfl | rfl
  · rw [since_cons rfl]
    simp
  · rw [since_cons rfl]
    simp

theorem requestSince_requested : RequestSince (.requested :: h) := by
  unfold RequestSince
  rw [since_cons rfl]
  exact List.mem_cons_self

theorem requestSince_continued : RequestSince (.continued :: h) ↔ RequestSince h := by
  unfold RequestSince
  rw [since_cons rfl]
  simp

end Cons

namespace Processor

/-! ## The invariant -/

/-- The bits of the interrupt system are what the history says. -/
structure Tracks (h : List Happening) (p : Processor) : Prop where
  sound : p.Sound
  enabling : p.fields.enabling = true ↔ IonSince h
  enabled : p.fields.enabled = true ↔ IonInEffect h
  heldOff : p.fields.heldOff = true ↔ ChangeSince h
  requested : p.fields.requested = true ↔ RequestSince h

/-- A processor that has just been reset: nothing is under way, and the interrupt system is
clear.  Registers, fields, core and the teletype may be anything. -/
structure IsReset (p : Processor) : Prop where
  cycle : p.cycle = .idle
  enabling : p.fields.enabling = false
  enabled : p.fields.enabled = false
  heldOff : p.fields.heldOff = false
  requested : p.fields.requested = false

theorem isReset_powerUp (traced : Bool) (core : Core) (tty : Teletype) (regs : Registers) :
    IsReset { powerUp traced core tty with regs := regs } := ⟨rfl, rfl, rfl, rfl, rfl⟩

variable {h : List Happening} {start p q : Processor} {now : Time} {o : Outcome}

/-- LOAD ADDRESS leaves it reset. -/
theorem IsReset.load (hp : p.IsReset) (dataField instructionField : FieldNumber) :
    (p.onFields (Extension.load dataField instructionField)).IsReset :=
  ⟨hp.cycle, hp.enabling, hp.enabled, hp.heldOff, hp.requested⟩

theorem tracks_start (hp : p.IsReset) : p.Tracks [] := by
  constructor
  · refine sound_of_atBoundary ?_
    unfold atBoundary
    rw [hp.cycle]
  · simp [hp.enabling, IonSince, since]
  · simp [hp.enabled, IonInEffect, since]
  · simp [hp.heldOff, ChangeSince, since]
  · simp [hp.requested, RequestSince, since]

theorem Tracks.request (ht : p.Tracks h) :
    (p.onFields Extension.request).Tracks (.requested :: h) := by
  constructor
  · exact ⟨ht.sound.coherent, ht.sound.released⟩
  · exact ht.enabling.trans (ionSince_cons (.inl rfl)).symm
  · exact ht.enabled.trans (ionInEffect_cons (.inl rfl)).symm
  · exact ht.heldOff.trans (changeSince_cons (.inl rfl)).symm
  · exact ⟨fun _ => requestSince_requested, fun _ => rfl⟩

theorem sound_of_run (hs : start.Sound) (hrun : Run start h p) : p.Sound := by
  induction hrun with
  | start => exact hs
  | step _ hstep ih => exact (step_cases ih hstep).1
  | request _ ih => exact ⟨ih.coherent, ih.released⟩

theorem happening_interrupted (hi : Interrupted now p q) : p.happening q = .acknowledged := by
  obtain ⟨polled, -, rfl⟩ := hi.eq
  unfold happening
  rw [if_pos hi.atBoundary]
  rfl

theorem happening_fetched (hf : Fetched now p q) :
    p.happening q = .fetched p.home p.nextWord := by
  obtain ⟨polled, -, hq⟩ := hf.eq
  have hc : q.cycle = .fetch := by
    rw [hq]
    exact (sameControl_fetch polled).cycle.trans polled.cycle_loadInstruction
  unfold happening
  rw [if_pos hf.atBoundary, hc]
  rfl

theorem happening_continued (hc : Continued p q) : p.happening q = .continued := by
  unfold happening
  rw [hc.offBoundary]
  rfl

/-- An interrupt clears everything but what holds it off, and that is clear. -/
theorem Tracks.interrupted (ht : p.Tracks h) (hi : Interrupted now p q) (hq : q.Sound) :
    q.Tracks (.acknowledged :: h) := by
  obtain ⟨polled, hpoll, rfl⟩ := hi.eq
  obtain ⟨tty, events, -, rfl⟩ := poll_eq_ok_iff.mp hpoll
  constructor
  · exact hq
  · exact ⟨nofun, fun h => absurd h not_ionSince_acknowledged⟩
  · exact ⟨nofun, fun h => absurd h not_ionInEffect_acknowledged⟩
  · rw [fields_interrupt, changeSince_acknowledged]
    exact ht.heldOff
  · exact ⟨nofun, fun h => absurd h not_requestSince_acknowledged⟩

theorem Tracks.fetched (ht : p.Tracks h) (hf : Fetched now p q) (hq : q.Sound) :
    q.Tracks (.fetched p.home p.nextWord :: h) := by
  have he := hf.interrupts
  constructor
  · exact hq
  · rw [he.enabling, ionSince_fetched, ← ht.enabling]
    simp
  · rw [he.enabled, ionInEffect_fetched, ← ht.enabling]
    simp
  · rw [he.heldOff, changeSince_fetched, ← ht.heldOff]
    simp
  · rw [he.requested, requestSince_fetched]
    exact ht.requested

theorem Tracks.continued (ht : p.Tracks h) (hc : Continued p q) (hq : q.Sound) :
    q.Tracks (.continued :: h) := by
  have he := hc.interrupts
  constructor
  · exact hq
  · rw [he.enabling, ionSince_cons (.inr rfl)]
    exact ht.enabling
  · rw [he.enabled, ionInEffect_cons (.inr rfl)]
    exact ht.enabled
  · rw [he.heldOff, changeSince_cons (.inr rfl)]
    exact ht.heldOff
  · rw [he.requested, requestSince_continued]
    exact ht.requested

/-- A step keeps the bits and the history together. -/
theorem Tracks.step (ht : p.Tracks h) (hs : p.step now = .ok (o, q)) :
    q.Tracks (p.happening q :: h) := by
  obtain ⟨hq, hi | hf | hc⟩ := step_cases ht.sound hs
  · rw [happening_interrupted hi]
    exact ht.interrupted hi hq
  · rw [happening_fetched hf]
    exact ht.fetched hf hq
  · rw [happening_continued hc]
    exact ht.continued hc hq

/-- So does a whole run. -/
theorem tracks_of_run (hstart : start.IsReset) (hrun : Run start h p) : p.Tracks h := by
  induction hrun with
  | start => exact tracks_start hstart
  | step _ hs ih => exact ih.step hs
  | request _ ih => exact ih.request

/-! ## Going on with a run -/

/-- Where no interrupt is taken, an instruction of one cycle is carried out by its fetch. -/
theorem architecture_of_step (hb : p.atBoundary = true) (hno : ¬ p.Acknowledges now)
    (hone : Architecture.cycles p.nextWord = 1) (hs : p.step now = .ok (o, q)) :
    p.happening q = .fetched p.home p.nextWord ∧ q.atBoundary = true ∧
      ∃ tty events, p.tty.poll now = .ok (tty, events) ∧
        q.architecture =
          (({ p.architecture with tty := tty } : Architecture).advance.perform p.nextWord
            p.regs.pc).2 := by
  have hf := fetched_of_step hb hno hs
  obtain ⟨polled, hpoll, -⟩ := hf.eq
  have hfetch := step_of_not_acknowledges hb hpoll hno
  obtain ⟨tty, events, htty, rfl⟩ := poll_eq_ok_iff.mp hpoll
  have hlen : ([] : List Time).length + 1 = Architecture.cycles p.nextWord := hone.symm
  obtain ⟨q', hq', heff⟩ := performs_of_fetch hfetch hlen
  cases hq' with
  | last hs' hb' =>
    rw [hs] at hs'
    cases hs'
    exact ⟨happening_fetched hf, hb', tty, events, htty, heff⟩
  | next _ _ hrest => cases hrest

/-- Where no interrupt can be due, a run goes on with an instruction of one cycle. -/
theorem exists_run_of_quiet (now : Time) {s : Architecture} {word : Word} (hrun : Run start h p)
    (hb : p.atBoundary = true) (hp : p.architecture = s)
    (hpoll : s.tty.poll now = .ok (s.tty, []))
    (hquiet : s.fields.enabled = false ∨ s.fields.heldOff = true)
    (hword : s.memory s.home = word) (hone : Architecture.cycles word = 1) :
    ∃ q, Run start (.fetched s.home word :: h) q ∧ q.atBoundary = true ∧
      q.architecture = (s.advance.perform word s.pc).2 := by
  subst hp hword
  have hpoll' : p.tty.poll now = .ok (p.tty, []) := hpoll
  have hno : ¬ p.Acknowledges now := by
    rcases hquiet with henabled | hheld
    · exact not_acknowledges_of_disabled henabled
    · exact fun hack => Bool.false_ne_true (hack.enabled.2.symm.trans hheld)
  obtain ⟨o, q, hs⟩ := exists_step (sound_of_atBoundary hb) hpoll'
  obtain ⟨hfetched, hq, tty, events, htty, heff⟩ := architecture_of_step hb hno hone hs
  rw [hpoll'] at htty
  cases htty
  refine ⟨q, ?_, hq, heff⟩
  have hnext := hrun.step hs
  rwa [hfetched] at hnext

/-- It also goes on with a request, which changes nothing else. -/
theorem exists_run_of_request {s : Architecture} (hrun : Run start h p) (hb : p.atBoundary = true)
    (hp : p.architecture = s) :
    ∃ q, Run start (.requested :: h) q ∧ q.atBoundary = true ∧
      q.architecture = { s with fields := s.fields.request } :=
  ⟨_, hrun.request, hb, congrArg (fun s => { s with fields := s.fields.request }) hp⟩

/-- An interrupt that is due is taken. -/
theorem acknowledges_of_architecture (now : Time) {s : Architecture} (hb : p.atBoundary = true)
    (hp : p.architecture = s) (hpoll : s.tty.poll now = .ok (s.tty, []))
    (hdue : s.fields.willInterrupt s.tty.interruptRequest = true) :
    p.Acknowledges now ∧ p.step now = .ok (.proceed, p.interrupt) := by
  subst hp
  have hpolled : p.poll now = .ok p := poll_eq_ok_iff.mpr ⟨_, _, hpoll, rfl⟩
  have hstep : p.step now = .ok (.proceed, p.interrupt) := by
    rw [step_of_atBoundary hb, fetch_eq_of_poll hpolled]
    exact if_pos hdue
  exact ⟨(acknowledges_iff_of_poll hb hpolled).mpr hdue, hstep⟩

/-! ## Programs that a request waits for -/

/-- Three words at 0200 of one of two fields, which LOAD ADDRESS has selected after a reset. -/
def loadedAt (field : FieldNumber) (w₀ w₁ w₂ : Word) : Processor :=
  onFields (Extension.load field field)
    { powerUp false
        ((((Core.blank 2).write ⟨field, 0o200⟩ w₀).write ⟨field, 0o201⟩ w₁).write
          ⟨field, 0o202⟩ w₂)
        (.powerUp 10 .unconnected .unconnected) with
      regs := { Registers.zero with pc := 0o200 } }

theorem isReset_loadedAt (field : FieldNumber) (w₀ w₁ w₂ : Word) :
    (loadedAt field w₀ w₁ w₂).IsReset :=
  (isReset_powerUp false _ _ _).load field field

/-- About to execute the word at 0200 of a field, with a request waiting. -/
def requestedAt (field : FieldNumber) (memory : Address → Word) : Architecture where
  lac := .cons false 0
  pc := 0o200
  switches := 0
  fields := (Extension.powerUp.load field field).request
  tty := .powerUp 10 .unconnected .unconnected
  fieldCount := 2
  memory := memory

theorem exists_run_requestedAt (field : FieldNumber) (hfit : field.toNat < 2) (w₀ w₁ w₂ : Word) :
    ∃ p memory, Run (loadedAt field w₀ w₁ w₂) [.requested] p ∧ p.atBoundary = true ∧
      p.architecture = requestedAt field memory ∧ memory ⟨field, 0o200⟩ = w₀ ∧
      memory ⟨field, 0o201⟩ = w₁ ∧ memory ⟨field, 0o202⟩ = w₂ := by
  have hcount : (loadedAt field w₀ w₁ w₂).core.fieldCount = 2 := by
    simp [loadedAt, powerUp, onFields, Core.blank, Core.maxFields]
  refine ⟨_, (loadedAt field w₀ w₁ w₂).core.peek, Run.start.request, rfl, ?_, ?_⟩
  · exact Architecture.ext rfl rfl rfl rfl rfl hcount rfl
  · simp [loadedAt, powerUp, onFields, Core.peek_write, Core.isFitted, Core.blank, Core.maxFields,
      hfit]

/-! ## When an interrupt is taken -/

/-- An ION that finds interrupts off is not in effect before another fetch. -/
theorem not_ionInEffect_of_latest {later earlier : List Happening} {place : Address}
    (hquiet : ∀ place' word, .fetched place' word ∉ later) (hoff : ¬ IonSince earlier) :
    ¬ IonInEffect (later ++ .fetched place ion :: earlier) := by
  induction later with
  | nil =>
    rw [List.nil_append, ionInEffect_fetched]
    exact fun h => hoff h.2
  | cons e later ih =>
    have hrest := ih fun place' word hmem => hquiet place' word (List.mem_cons_of_mem _ hmem)
    rw [List.cons_append]
    cases e with
    | requested => rwa [ionInEffect_cons (.inl rfl)]
    | continued => rwa [ionInEffect_cons (.inr rfl)]
    | acknowledged => exact not_ionInEffect_acknowledged
    | fetched place' word => exact absurd List.mem_cons_self (hquiet place' word)

/-- At a fetch the history decides, with the flags of the teletype after the poll. -/
theorem Tracks.acknowledges_iff {tty : Teletype} {events : List Event} (ht : p.Tracks h)
    (hb : p.atBoundary = true) (hpoll : p.tty.poll now = .ok (tty, events)) :
    p.Acknowledges now ↔ IonInEffect h ∧ ¬ ChangeSince h ∧ (RequestSince h ∨ tty.Asks) := by
  rw [acknowledges_iff_of_poll hb (poll_eq_ok_iff.mpr ⟨tty, events, hpoll, rfl⟩),
    ← ht.enabled, ← ht.heldOff, ← ht.requested, ← Teletype.interruptRequest_of_poll hpoll]
  unfold Extension.willInterrupt
  simp only [Bool.and_eq_true, Bool.or_eq_true, Bool.not_eq_true', Bool.not_eq_true]
  constructor
  · rintro ⟨⟨he, hr⟩, hh⟩
    exact ⟨he, hh, hr⟩
  · rintro ⟨he, hh, hr⟩
    exact ⟨⟨he, hr⟩, hh⟩

/-- In every run from a reset, a step that begins a fetch takes an interrupt if and only if an ION
is in effect, no change of field is pending, and there is a request or the teletype asks for one
after the poll of that very fetch.  So between two interrupts there is always an ION, and a new
request or the teletype; the instruction after an ION that finds interrupts off always runs; and a
flag that has been cleared, or a teletype that may not interrupt, is seen at once, whatever its
request line says. -/
theorem acknowledges_iff_history {tty : Teletype} {events : List Event} (hstart : start.IsReset)
    (hrun : Run start h p) (hb : p.atBoundary = true)
    (hpoll : p.tty.poll now = .ok (tty, events)) :
    (∃ o q, p.step now = .ok (o, q)) ∧
      (p.Acknowledges now ↔ IonInEffect h ∧ ¬ ChangeSince h ∧ (RequestSince h ∨ tty.Asks)) ∧
      (∀ later earlier, h = later ++ .acknowledged :: earlier → p.Acknowledges now →
        (∃ place, .fetched place ion ∈ later) ∧ (.requested ∈ later ∨ tty.Asks)) ∧
      (∀ later place earlier, h = later ++ .fetched place ion :: earlier →
        (∀ place' word, .fetched place' word ∉ later) → ¬ IonSince earlier →
        ¬ p.Acknowledges now) ∧
      (p.tty.interruptEnable = false ∨
          p.tty.keyboardFlag = false ∧ p.tty.printerFlag = false ∧ events = [] →
        ¬ RequestSince h → ¬ p.Acknowledges now) := by
  have ht := tracks_of_run hstart hrun
  have hiff := ht.acknowledges_iff hb hpoll
  refine ⟨?_, hiff, ?_, ?_, ?_⟩
  · exact exists_step ht.sound hpoll
  · rintro later earlier rfl hack
    obtain ⟨⟨after, place, before, hsince, -⟩, -, hask⟩ := hiff.mp hack
    have hmem : .fetched place ion ∈ since turnsOff (later ++ .acknowledged :: earlier) := by
      rw [hsince]
      exact List.mem_append_right _ List.mem_cons_self
    constructor
    · exact ⟨place, mem_of_mem_since rfl hmem⟩
    · exact hask.imp_left fun hreq => mem_of_mem_since rfl hreq
  · rintro later place earlier rfl hquiet hoff hack
    exact not_ionInEffect_of_latest hquiet hoff (hiff.mp hack).1
  · intro hdown hreq hack
    obtain ⟨henable, hflags⟩ := Teletype.poll_keeps hpoll
    rcases (hiff.mp hack).2.2 with hr | ⟨he, hf⟩
    · exact hreq hr
    · rcases hdown with hd | ⟨hk, hp, hnil⟩
      · rw [henable, hd] at he
        cases he
      · rw [(hflags hnil).1, (hflags hnil).2, hk, hp] at hf
        simp at hf

/-- ION and NOP, with a request waiting from the beginning: after the ION it still waits, and after
the NOP it is taken. -/
theorem acknowledges_iff_history_ion :
    ∃ start p q, start.IsReset ∧
      Run start [.fetched ⟨0, 0o200⟩ ion, .requested] p ∧ p.atBoundary = true ∧
      p.tty.poll 0 = .ok (p.tty, []) ∧ ¬ p.Acknowledges 0 ∧
      Run start [.fetched ⟨0, 0o201⟩ 0o7000, .fetched ⟨0, 0o200⟩ ion, .requested] q ∧
      q.atBoundary = true ∧ q.tty.poll 0 = .ok (q.tty, []) ∧ q.Acknowledges 0 := by
  have hstart := isReset_loadedAt 0 ion 0o7000 0o7402
  obtain ⟨r, memory, hrun, hb, harch, h₀, h₁, -⟩ :=
    exists_run_requestedAt 0 (by decide) ion 0o7000 0o7402
  obtain ⟨p, hrun₁, hb₁, harch₁⟩ := exists_run_of_quiet 0 hrun hb harch rfl (.inl rfl) h₀ rfl
  obtain ⟨q, hrun₂, hb₂, harch₂⟩ := exists_run_of_quiet 0 hrun₁ hb₁ harch₁ rfl (.inl rfl) h₁ rfl
  have hpoll₁ : p.tty.poll 0 = .ok (p.tty, []) := by
    rw [show p.tty = _ from congrArg Architecture.tty harch₁]
    rfl
  have hpoll₂ : q.tty.poll 0 = .ok (q.tty, []) := by
    rw [show q.tty = _ from congrArg Architecture.tty harch₂]
    rfl
  obtain ⟨-, -, -, hlatest, -⟩ := acknowledges_iff_history hstart hrun₁ hb₁ hpoll₁
  obtain ⟨-, hiff, -⟩ := acknowledges_iff_history hstart hrun₂ hb₂ hpoll₂
  have hearlier : ¬ IonSince [.requested] := by
    rw [ionSince_cons (.inl rfl)]
    simp [IonSince, since]
  have hion : IonInEffect [.fetched ⟨0, 0o201⟩ 0o7000, .fetched ⟨0, 0o200⟩ ion, .requested] :=
    ionInEffect_fetched.mpr ⟨by decide, ionSince_fetched.mpr (.inl rfl)⟩
  have hchange : ¬ ChangeSince
      [.fetched ⟨0, 0o201⟩ 0o7000, .fetched ⟨0, 0o200⟩ ion, .requested] := by
    rw [changeSince_fetched, changeSince_fetched, changeSince_cons (.inl rfl)]
    simp [ChangeSince, since, changesField, ion]
  have hrequest : RequestSince
      [.fetched ⟨0, 0o201⟩ 0o7000, .fetched ⟨0, 0o200⟩ ion, .requested] :=
    requestSince_fetched.mpr (requestSince_fetched.mpr requestSince_requested)
  refine ⟨_, p, q, hstart, hrun₁, hb₁, hpoll₁, ?_, hrun₂, hb₂, hpoll₂, ?_⟩
  · exact hlatest [] _ _ rfl (fun _ _ => List.not_mem_nil) hearlier
  · exact hiff.mpr ⟨hion, hchange, .inl hrequest⟩

end Processor

end Pdp8
