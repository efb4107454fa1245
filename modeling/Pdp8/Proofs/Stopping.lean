import Pdp8.Proofs.PanelNeutral
import Pdp8.Proofs.Refinement

/-!
# Pdp8.Proofs.Stopping — where STOP leaves an instruction

STOP acts between two steps, and a step is a major state.  So it may come while an instruction is
half executed, which then waits as it is: CONTINUE finishes it as if nothing had happened
(`Completes.alike`), and the keys that bring the processor back to the idle state abandon it.
-/

namespace Pdp8

namespace Processor

variable {p p' q : Processor} {now : Time} {o : Outcome} {times : List Time}

/-! ## The rest of an instruction -/

theorem not_readsSwitches (hp : p.Coherent) (hoff : p.atBoundary = false) :
    ¬ p.ReadsSwitches now := by
  rintro ⟨hnext, -, -⟩
  rw [fetchesNext_off_boundary hp hoff] at hnext
  cases hnext

/-- The rest of an instruction is the same whatever the switches are. -/
theorem Completes.alike (h : Completes times p o q) (hp : p.Sound) (hoff : p.atBoundary = false)
    (hsame : p.Alike p') : ∃ q', Completes times p' o q' ∧ q.Alike q' := by
  induction h generalizing p' with
  | @last now p q o hs hq =>
    have hends : SameEnd (TwinResults p'.regs.sr) (p.step now) (p'.step now) :=
      Twin.step hsame (.inr (not_readsSwitches hp.coherent hoff))
    rw [hs] at hends
    obtain ⟨⟨o', q'⟩, hs', rfl, htwin⟩ := hends.of_ok
    refine ⟨q', .last hs' ?_, htwin.alike⟩
    rw [htwin.atBoundary_eq]
    exact hq
  | @next now later p q r o hs hq _ ih =>
    have hends : SameEnd (TwinResults p'.regs.sr) (p.step now) (p'.step now) :=
      Twin.step hsame (.inr (not_readsSwitches hp.coherent hoff))
    rw [hs] at hends
    obtain ⟨⟨o', q'⟩, hs', rfl, htwin⟩ := hends.of_ok
    obtain ⟨r', hrest, hr⟩ := ih (step_cases hp hs).1 hq htwin.alike
    refine ⟨r', .next hs' ?_ hrest, hr⟩
    rw [htwin.atBoundary_eq]
    exact hq

/-- An instruction that is under way is finished by one or two steps, at whatever times. -/
theorem exists_completes (hp : p.Sound) (hoff : p.atBoundary = false) (first second : Time) :
    ∃ times ∈ [[first], [first, second]], ∃ q, Completes times p .proceed q := by
  rcases step_off_boundary hp.coherent hoff first with
    ⟨operand, -, -, -, hs⟩ | ⟨op, operand, a, -, hs⟩
  · cases hq : (p.defer (operand.resolve p.fetchedFrom)).atBoundary with
    | true => exact ⟨_, List.mem_cons_self, _, .last hs hq⟩
    | false =>
      have hsound := (step_cases hp hs).1
      rcases step_off_boundary hsound.coherent hq second with
        ⟨_, hc, -, -, -⟩ | ⟨op, operand', a, -, hs'⟩
      · rw [cycle_defer] at hc
        cases hc
      · refine ⟨_, List.mem_cons_of_mem _ List.mem_cons_self, _, .next hs hq (.last hs' ?_)⟩
        exact atBoundary_of_execute (cycle_refers _ _ _)
  · exact ⟨_, List.mem_cons_self, _, .last hs (atBoundary_of_execute (cycle_refers _ _ _))⟩

end Processor

namespace Machine

variable {m : Machine} {v : PinVector}

/-! ## STOP -/

theorem acceptPins_stop (hrun : m.running = true)
    (hstop : (Panel.keys m.panel.table m.panel.written v).stop = true) :
    (m.acceptPins v).1.stopRequested = true ∧ (m.acceptPins v).2.running = false := by
  have hrequested : (m.acceptPins v).1.stopRequested = true := by
    show (m.running && ((Panel.keys m.panel.table m.panel.written v).stop || _)) = true
    rw [hrun, hstop]
    rfl
  refine ⟨hrequested, ?_⟩
  rw [(acceptPins_same v m).1, hrequested]
  exact Bool.and_false _

/-- All keys but STOP and CONTINUE bring the processor back to the idle state. -/
theorem cycle_pressKeys_only {key : Signal}
    (hkey : key ∈ [.loadAddress, .deposit, .examine, .start]) (hrun : m.running = false)
    (hswitch : m.switches.step = false) :
    ∃ start m', m.pressKeys (.only key) = .ok (start, m') ∧ m'.processor.cycle = .idle := by
  simp only [List.mem_cons, List.not_mem_nil, or_false] at hkey
  rcases hkey with rfl | rfl | rfl | rfl
  · exact ⟨_, _, pressKeys_loadAddress hrun, rfl⟩
  · exact ⟨_, _, pressKeys_deposit hrun, rfl⟩
  · exact ⟨_, _, pressKeys_of_stopped hrun, rfl⟩
  · exact ⟨_, _, pressKeys_start hrun hswitch, rfl⟩

/-- A session only reaches what can be reached. -/
theorem Reachable.perform {m' : Machine} {a : Action} (hm : m.Reachable)
    (h : m.perform a = .ok m') : m'.Reachable := by
  cases a with
  | look =>
    cases h
    exact hm
  | wait interval =>
    cases h
    exact hm.advance interval
  | step =>
    unfold Machine.perform at h
    dsimp only at h
    split at h
    · cases h
    · rename_i hs
      cases h
      exact hm.step hs
  | write v =>
    unfold Machine.perform Machine.writePins at h
    dsimp only at h
    split at h
    · cases h
    · rename_i hk
      split at hk
      · cases hk
      · rename_i hpress
        cases h
        cases hk
        exact (hm.acceptPins v).pressKeys hpress

/-- STOP may find an instruction half executed: here the first word after power-up has been fetched,
an AND. -/
theorem exists_mid_instruction (t : PinTable) :
    ∃ m v, Reachable m ∧ m.running = true ∧
      (Panel.keys m.panel.table m.panel.written v).stop = true ∧
      (Panel.switches m.panel.table v).step = false ∧ m.processor.atBoundary = false := by
  let m := powerUp .standard t (.powerUp 10 .unconnected .unconnected) ⟨0, 1⟩
  let continued := t.spread .continueKey 1 (.off t.pinCount)
  let stopped := t.spread .stop 1 continued
  have hoff (s : Signal) (hs : s ≠ .continueKey) : t.gather s continued = 0 :=
    (PinTable.gather_spread_of_ne hs _ _).trans (PinTable.gather_off _ _ _)
  obtain ⟨hkeys, hswitches⟩ :=
    Panel.pressed_alone (show Signal.continueKey.acts = true from rfl) nofun t
  have hswitch : (Panel.switches t continued).step = false := congrArg Switches.step hswitches
  obtain ⟨-, -, hrun⟩ := perform_continue (m := m) rfl hkeys hswitch
  let running : Machine :=
    { (m.withPins continued).report .running with running := true, halted := false }
  let p := running.processor
  have hreach : running.Reachable := (Reachable.powerUp _ t _ _).perform hrun
  have hpoll : p.poll 0 = .ok p := Processor.poll_eq_ok_iff.mpr ⟨_, [], rfl, rfl⟩
  have hfetch : p.step 0 = .ok p.loadInstruction.beginInstruction := by
    rw [Processor.step_of_atBoundary rfl, Processor.fetch_eq_of_poll hpoll]
    exact if_neg Bool.false_ne_true
  have hword : p.nextWord = 0 := Core.peek_blank 2 p.home
  have hdec : Instruction.decode p.nextWord = .memory .and (.ofWord p.nextWord) := by
    rw [hword]
    rfl
  obtain ⟨hproceed, -, hpending⟩ := Processor.pending_of_memory hfetch hdec
  have hstep : running.step = .ok (.proceed, running.stepped .proceed p.loadInstruction) := by
    rw [step_of_not_halted rfl,
      show running.processor.step running.clock.now = _ from hproceed]
  refine ⟨_, stopped, hreach.step hstep, rfl, ?_, ?_, hpending⟩
  · show Panel.wentDown t continued stopped .stop = true
    unfold Panel.wentDown
    rw [hoff .stop nofun, PinTable.gather_spread]
    rfl
  · show (t.gather .stepSwitch stopped != 0) = false
    have hne : Signal.stepSwitch ≠ .stop := nofun
    rw [PinTable.gather_spread_of_ne hne, hoff .stepSwitch nofun]
    rfl

/-- STOP acts between two major states.  On a running machine that has been reached in any way, with
the STEP switch off, it stops the machine and leaves the processor just as the latest step left it:
an instruction is half executed afterwards if it was when STOP came, and only then.  If so, CONTINUE
finishes it with the one or two steps that it still takes, exactly as the machine would have without
STOP; and LOAD ADDRESS, DEPOSIT, EXAMINE and START, which return the processor to the idle state,
abandon it. -/
theorem stop_between_cycles (hm : m.Reachable) (hrun : m.running = true)
    (hstop : (Panel.keys m.panel.table m.panel.written v).stop = true)
    (hswitch : (Panel.switches m.panel.table v).step = false) :
    let stopped := (m.acceptPins v).2
    (m.acceptPins v).1.stopRequested = true ∧ stopped.running = false ∧
      stopped.halted = false ∧
      Processor.Twin (Panel.switches m.panel.table v).switchRegister m.processor
        stopped.processor ∧
      stopped.processor.atBoundary = m.processor.atBoundary ∧
      (m.processor.atBoundary = false → ∀ first second,
        ∃ times ∈ [[first], [first, second]], ∃ m' q q',
          stopped.pressKeys (.only .continueKey) = .ok (true, m') ∧ m'.running = true ∧
            Processor.Completes times m.processor .proceed q ∧
            Processor.Completes times m'.processor .proceed q' ∧ q.Alike q') ∧
      ∀ key ∈ [.loadAddress, .deposit, .examine, .start], ∃ start m',
        stopped.pressKeys (.only key) = .ok (start, m') ∧ m'.processor.cycle = .idle := by
  intro stopped
  have hsound := hm.sound
  obtain ⟨-, hhalted, -, hswitches, -, htwin⟩ := acceptPins_same v m
  obtain ⟨hrequested, hstopped⟩ := acceptPins_stop hrun hstop
  have hstep : stopped.switches.step = false := (congrArg Switches.step hswitches).trans hswitch
  refine ⟨hrequested, hstopped, hhalted.trans (hsound.halted hrun), htwin, htwin.atBoundary_eq,
    ?_, ?_⟩
  · intro hoff first second
    obtain ⟨times, htimes, q, hq⟩ := Processor.exists_completes hsound.processor hoff first second
    have hsame : m.processor.Alike (stopped.processor.report [.running]) :=
      htwin.alike.trans ⟨_, rfl⟩
    obtain ⟨q', hq', hends⟩ := hq.alike hsound.processor hoff hsame
    exact ⟨times, htimes, _, q, q', pressKeys_continue hstopped hstep, rfl, hq, hq', hends⟩
  · intro key hkey
    exact cycle_pressKeys_only hkey hstopped hstep

/-- Such a machine. -/
theorem stop_between_cycles_and :
    ∃ m v, Reachable m ∧ m.running = true ∧
      (Panel.keys m.panel.table m.panel.written v).stop = true ∧
      (Panel.switches m.panel.table v).step = false ∧
      (m.acceptPins v).1.stopRequested = true ∧ m.processor.atBoundary = false ∧
      ∃ times ∈ [[1], [1, 2]], ∃ q, Processor.Completes times m.processor .proceed q := by
  obtain ⟨m, v, hm, hrun, hstop, hswitch, hoff⟩ := exists_mid_instruction .standard
  obtain ⟨hrequested, -, -, -, -, hrest, -⟩ := stop_between_cycles hm hrun hstop hswitch
  obtain ⟨times, htimes, -, q, -, -, -, hq, -⟩ := hrest hoff 1 2
  exact ⟨m, v, hm, hrun, hstop, hswitch, hrequested, hoff, times, htimes, q, hq⟩

/-- STOP does come in the middle of an instruction, which EXAMINE then abandons. -/
theorem stop_mid_instruction :
    ∃ m v, Reachable m ∧ m.running = true ∧
      (Panel.keys m.panel.table m.panel.written v).stop = true ∧
      (Panel.switches m.panel.table v).step = false ∧
      (m.acceptPins v).2.running = false ∧ (m.acceptPins v).2.processor.atBoundary = false ∧
      ∃ start m', (m.acceptPins v).2.pressKeys (.only .examine) = .ok (start, m') ∧
        m'.processor.cycle = .idle := by
  obtain ⟨m, v, hm, hrun, hstop, hswitch, hoff⟩ := exists_mid_instruction .standard
  obtain ⟨-, -, -, hswitches, -, htwin⟩ := acceptPins_same v m
  have hstopped := (acceptPins_stop hrun hstop).2
  have hstep : (m.acceptPins v).2.switches.step = false :=
    (congrArg Switches.step hswitches).trans hswitch
  have hexamine : Signal.examine ∈ [.loadAddress, .deposit, .examine, .start] := by decide
  exact ⟨m, v, hm, hrun, hstop, hswitch, hstopped, htwin.atBoundary_eq.trans hoff,
    cycle_pressKeys_only hexamine hstopped hstep⟩

end Machine

end Pdp8
