import Pdp8.Proofs.Reachable

/-!
# Pdp8.Proofs.PanelNeutral — the panel leaves the program alone

Whoever steps a machine, looks at it and works its STOP, STEP and CONTINUE keys reaches the
processor in two ways only: the switch register follows the switches, and now and then there is a
cycle.  A `Session` lists these inputs beside the actions, and `panel_neutral` says that they are
all that the processor ever gets.
-/

namespace Pdp8

/-! ## Inputs of the processor -/

/-- What reaches the processor. -/
inductive Processor.Input
  /-- The switch register is set. -/
  | switches (word : Word)
  /-- It is carried through a major state, at this reading of the clock. -/
  | cycle (now : Time)
  deriving DecidableEq, Repr

namespace Processor

/-- The processor after an input. -/
def receive (input : Input) (p : Processor) : Except Fault Processor :=
  match input with
  | .switches word => .ok { p with regs.sr := word }
  | .cycle now =>
    match p.step now with
    | .error f => .error f
    | .ok (_, p) => .ok p

/-- The processor after some inputs. -/
def follow : List Input → Processor → Except Fault Processor
  | [], p => .ok p
  | input :: inputs, p =>
    match p.receive input with
    | .error f => .error f
    | .ok p => p.follow inputs

/-- No OSR is executed in the course of some inputs. -/
def NoOsr : List Input → Processor → Prop
  | [], _ => True
  | input :: inputs, p =>
    (∀ now, input = .cycle now → ¬ p.ReadsSwitches now) ∧
      ∀ q, p.receive input = .ok q → q.NoOsr inputs

/-- The cycles among some inputs, each with the switch register at its time, which is `sr` at
first. -/
def cycles (sr : Word) : List Input → List (Time × Word)
  | [] => []
  | .switches word :: inputs => cycles word inputs
  | .cycle now :: inputs => (now, sr) :: cycles sr inputs

/-- The times of the cycles among some inputs. -/
def times (inputs : List Input) : List Time := inputs.filterMap fun
  | .switches _ => none
  | .cycle now => some now

/-- Cycles at given times, each with a given switch register. -/
def runCycles : List (Time × Word) → Processor → Except Fault Processor
  | [], p => .ok p
  | (now, sr) :: rest, p =>
    match step now { p with regs.sr := sr } with
    | .error f => .error f
    | .ok (_, p) => p.runCycles rest

end Processor

/-! ## Actions -/

/-- The keys that change the registers or core. -/
def Keys.disturb (k : Keys) : Bool := k.deposit || k.examine || k.loadAddress || k.start

/-- What somebody does to a machine. -/
inductive Machine.Action
  /-- Step it, as a worker or by hand. -/
  | step
  /-- Read the pins or the registers. -/
  | look
  /-- Write the pins, with the keys acting. -/
  | write (v : PinVector)
  /-- Let some time pass. -/
  | wait (interval : Time)
  deriving DecidableEq, Repr

namespace Machine

/-- The machine after an action. -/
def perform (a : Action) (m : Machine) : Except Fault Machine :=
  match a with
  | .step =>
    match m.step with
    | .error f => .error f
    | .ok (_, m) => .ok m
  | .look => .ok m
  | .write v =>
    match m.writePins v with
    | .error f => .error f
    | .ok (_, _, m) => .ok m
  | .wait interval => .ok (m.advance interval)

/-- DEPOSIT, EXAMINE, LOAD ADDRESS and START are pressed only while the machine is running, in a
write that does not stop it. -/
def Allows (m : Machine) : Action → Prop
  | .write v =>
    (m.acceptPins v).1.keys.disturb = true →
      m.running = true ∧ (m.acceptPins v).1.stopRequested = false
  | _ => True

/-- What reaches the processor with an action: a cycle with every step of a machine that is not
halted, and the switches with every write, with a cycle after them if CONTINUE is pressed on a
stopped machine with STEP on. -/
def inputs (m : Machine) : Action → List Processor.Input
  | .step => if m.halted then [] else [.cycle m.clock.now]
  | .write v =>
    let (write, accepted) := m.acceptPins v
    let stepped := !accepted.running && write.keys.continueKey && accepted.switches.step
    .switches (Panel.switches m.panel.table v).switchRegister ::
      if stepped then [.cycle m.clock.now] else []
  | _ => []

/-- Actions one after another, as far as a fault lets them go, with what reaches the processor and
the end they come to. -/
inductive Session : Machine → List Action → List Processor.Input → Except Fault Machine → Prop
  | nil (m : Machine) : Session m [] [] (.ok m)
  | cons {m m' : Machine} {a : Action} {as : List Action} {is : List Processor.Input}
    {r : Except Fault Machine} :
    m.Allows a → m.perform a = .ok m' → Session m' as is r →
    Session m (a :: as) (m.inputs a ++ is) r
  | fault {m : Machine} {a : Action} {as : List Action} {f : Fault} :
    m.Allows a → m.perform a = .error f → Session m (a :: as) (m.inputs a) (.error f)

/-! ## One action -/

section OneAction

variable {m m' : Machine} {a : Action} {v : PinVector} {keys : Keys} {p : Processor} {sr : Word}

/-- Keys that disturb nothing only make the machine go on. -/
theorem pressKeys_of_not_disturb (h : keys.disturb = false) :
    m.pressKeys keys =
      if !m.running && keys.continueKey then m.resume else .ok (false, m) := by
  unfold Keys.disturb at h
  simp only [Bool.or_eq_false_iff] at h
  obtain ⟨⟨⟨hdeposit, hexamine⟩, hload⟩, hstart⟩ := h
  unfold pressKeys
  rw [hdeposit, hexamine, hload, hstart]
  cases m.running <;> rfl

/-- Once the pins of an allowed write are in, either the machine is running, or the keys disturb
nothing. -/
theorem Allows.running_or (h : m.Allows (.write v)) :
    (m.acceptPins v).2.running = true ∨ (m.acceptPins v).1.keys.disturb = false := by
  obtain ⟨hrunning, -⟩ := acceptPins_same v m
  cases hdisturb : (m.acceptPins v).1.keys.disturb with
  | false => exact .inr rfl
  | true =>
    obtain ⟨hrun, hstop⟩ := h hdisturb
    left
    rw [hrunning, hrun, hstop]
    rfl

/-- The machine as the STEP switch makes it go on, by a single step. -/
def goOn (m : Machine) : Except Fault Machine :=
  if m.switches.step then { m with halted := false }.perform .step
  else .ok { { m with halted := false }.report .running with running := true }

/-- An allowed write of the pins takes them in, and makes the machine go on if CONTINUE asks for
it. -/
theorem perform_write (h : m.Allows (.write v)) :
    m.perform (.write v) =
      if !(m.acceptPins v).2.running && (m.acceptPins v).1.keys.continueKey then
        (m.acceptPins v).2.goOn
      else .ok (m.acceptPins v).2 := by
  have hkeys : (m.acceptPins v).2.pressKeys (m.acceptPins v).1.keys =
      if !(m.acceptPins v).2.running && (m.acceptPins v).1.keys.continueKey then
        (m.acceptPins v).2.resume
      else .ok (false, (m.acceptPins v).2) := by
    rcases h.running_or with hrun | hdisturb
    · rw [pressKeys_of_running hrun, hrun]
      rfl
    · exact pressKeys_of_not_disturb hdisturb
  unfold perform writePins
  dsimp only
  rw [hkeys]
  split_ifs
  · unfold resume goOn
    dsimp only
    split_ifs
    · unfold perform
      dsimp only
      cases { (m.acceptPins v).2 with halted := false }.step with
      | error f => rfl
      | ok r => rfl
    · rfl
  · rfl

end OneAction

/-! ## The processor follows its inputs -/

section Follows

open Processor

variable {m m' : Machine} {a : Action} {v : PinVector} {p : Processor}

/-- The processor of a machine is a given one, but for the log. -/
def Carries (p : Processor) (m : Machine) : Prop := Twin p.regs.sr p m.processor

theorem follow_cycle (now : Time) (p : Processor) :
    p.follow [.cycle now] =
      match p.step now with
      | .error f => .error f
      | .ok (_, q) => .ok q := by
  unfold follow receive
  dsimp only
  cases p.step now with
  | error f => rfl
  | ok r => rfl

theorem follow_switches (word : Word) (is : List Input) (p : Processor) :
    p.follow (.switches word :: is) = follow is { p with regs.sr := word } := rfl

theorem Carries.step (h : Carries p m) (hhalted : m.halted = false) :
    SameEnd Carries (p.follow [.cycle m.clock.now]) (m.perform .step) := by
  have hends : SameEnd (TwinResults p.regs.sr) (p.step m.clock.now)
      (m.processor.step m.clock.now) := Twin.step h (.inl rfl)
  rw [follow_cycle]
  unfold Machine.perform
  dsimp only
  rw [step_of_not_halted hhalted]
  cases hp : p.step m.clock.now with
  | error f =>
    rw [hp] at hends
    rw [hends.of_error]
    exact .error f
  | ok r =>
    obtain ⟨o, q⟩ := r
    rw [hp] at hends
    obtain ⟨⟨o', q'⟩, hq, ho, htwin⟩ := hends.of_ok
    rw [hq]
    refine .ok ?_
    unfold Carries
    rw [processor_stepped, sr_of_step hp]
    exact htwin

/-- With each action the processor follows its inputs. -/
theorem Carries.perform (h : Carries p m) (hallow : m.Allows a) :
    SameEnd Carries (p.follow (m.inputs a)) (m.perform a) := by
  cases a with
  | look => exact .ok h
  | wait interval => exact .ok h
  | step =>
    cases hhalted : m.halted with
    | false =>
      unfold inputs
      rw [if_neg (Bool.eq_false_iff.mp hhalted)]
      exact h.step hhalted
    | true =>
      unfold inputs Machine.perform
      dsimp only
      rw [if_pos hhalted, step_of_halted hhalted]
      exact .ok h
  | write v =>
    obtain ⟨-, -, hclock, hswitches, -, htwin⟩ := acceptPins_same v m
    have haccepted : Carries { p with regs.sr := (Panel.switches m.panel.table v).switchRegister }
        (m.acceptPins v).2 := h.trans htwin
    rw [perform_write hallow]
    unfold inputs
    dsimp only
    rw [follow_switches]
    cases hresumes : !(m.acceptPins v).2.running && (m.acceptPins v).1.keys.continueKey with
    | false => exact .ok haccepted
    | true =>
      rw [Bool.true_and, if_pos rfl]
      unfold goOn
      cases hstep : (m.acceptPins v).2.switches.step with
      | false =>
        obtain ⟨log, heq⟩ := haccepted
        refine .ok ⟨.running :: log, ?_⟩
        show (m.acceptPins v).2.processor.report [.running] = _
        rw [heq]
        rfl
      | true =>
        rw [← hclock]
        exact Carries.step (m := { (m.acceptPins v).2 with halted := false }) haccepted rfl

theorem follow_cons (input : Input) (is : List Input) (p : Processor) :
    p.follow (input :: is) =
      match p.receive input with
      | .error f => .error f
      | .ok q => q.follow is := rfl

theorem follow_append (is js : List Input) (p : Processor) :
    p.follow (is ++ js) =
      match p.follow is with
      | .error f => .error f
      | .ok q => q.follow js := by
  induction is generalizing p with
  | nil => rfl
  | cons input is ih =>
    rw [List.cons_append, follow_cons, follow_cons]
    cases p.receive input with
    | error f => rfl
    | ok q => exact ih q

/-- In a session the processor follows its inputs. -/
theorem Session.carries {as : List Action} {is : List Input} {r : Except Fault Machine}
    (hs : Session m as is r) (h : Carries p m) : SameEnd Carries (p.follow is) r := by
  induction hs generalizing p with
  | nil m => exact .ok h
  | fault hallow hperform =>
    rw [← hperform]
    exact h.perform hallow
  | cons hallow hperform _ ih =>
    have hends := h.perform hallow
    rw [hperform] at hends
    rw [follow_append]
    obtain ⟨q, hq, hcarries⟩ := (hends.symm (S := fun m q => Carries q m) id).of_ok
    rw [hq]
    exact ih hcarries

/-! ## The cycles alone -/

/-- Where no OSR is executed, it matters only when there is a cycle; and otherwise what the
switches were set to then. -/
theorem follow_runCycles {sr : Word} {q : Processor} {is : List Input} {cs : List (Time × Word)}
    (h : Twin sr p q) (htimes : cs.map Prod.fst = times is)
    (hsr : cs = cycles p.regs.sr is ∨ p.NoOsr is) :
    SameEnd Processor.Alike (p.follow is) (q.runCycles cs) := by
  induction is generalizing p q cs sr with
  | nil =>
    obtain rfl := List.map_eq_nil_iff.mp htimes
    exact .ok h.alike
  | cons input is ih =>
    cases input with
    | switches word =>
      have htwin : Twin sr { p with regs.sr := word } q := by
        obtain ⟨log, rfl⟩ := h
        exact ⟨log, rfl⟩
      rw [follow_switches]
      exact ih htwin htimes (hsr.imp_right fun hno => hno.2 _ rfl)
    | cycle now =>
      cases cs with
      | nil => cases htimes
      | cons c cs =>
        obtain ⟨now', word⟩ := c
        obtain ⟨rfl, htimes'⟩ := List.cons.inj htimes
        have hset : Twin word p { q with regs.sr := word } := by
          obtain ⟨log, rfl⟩ := h
          exact ⟨log, rfl⟩
        have hword : word = p.regs.sr ∨ ¬ p.ReadsSwitches now' := by
          refine hsr.imp ?_ ?_
          · intro heq
            exact congrArg Prod.snd (List.cons.inj heq).1
          · intro hno
            exact hno.1 now' rfl
        have hends := hset.step hword
        rw [follow_cons]
        unfold receive runCycles
        dsimp only
        cases hp : p.step now' with
        | error f =>
          rw [hp] at hends
          rw [hends.of_error]
          exact .error f
        | ok r =>
          obtain ⟨o, p'⟩ := r
          rw [hp] at hends
          obtain ⟨⟨o', q'⟩, hq, -, htwin⟩ := hends.of_ok
          rw [hq]
          refine ih htwin htimes' (hsr.imp ?_ ?_)
          · intro heq
            rw [sr_of_step hp]
            exact (List.cons.inj heq).2
          · intro hno
            refine hno.2 p' ?_
            unfold receive
            dsimp only
            rw [hp]

end Follows

/-! ## Other switches -/

/-- Pins that differ in the switch register alone. -/
def SamePins (t : PinTable) (v w : PinVector) : Prop :=
  ∀ s : Signal, s ≠ .switchRegister → t.gather s w = t.gather s v

/-- The same action, or writes of pins that differ in the switch register alone. -/
inductive Action.Same (t : PinTable) : Action → Action → Prop
  | refl (a : Action) : Same t a a
  | write {v w : PinVector} : SamePins t v w → Same t (.write v) (.write w)

/-- Two machines are the same but for their switch registers, the switches for them and their
logs. -/
structure Alike (m m' : Machine) : Prop where
  processor : m.processor.Alike m'.processor
  clock : m'.clock = m.clock
  running : m'.running = m.running
  halted : m'.halted = m.halted
  table : m'.panel.table = m.panel.table
  written : SamePins m.panel.table m.panel.written m'.panel.written

section SamePins

variable {t : PinTable} {v w v' w' : PinVector}

theorem SamePins.keys (h : SamePins t v w) (h' : SamePins t v' w') :
    Panel.keys t w w' = Panel.keys t v v' := by
  have hdown (key : Signal) (hkey : key ≠ .switchRegister) :
      Panel.wentDown t w w' key = Panel.wentDown t v v' key := by
    unfold Panel.wentDown
    rw [h key hkey, h' key hkey]
  unfold Panel.keys
  rw [hdown .deposit nofun, hdown .examine nofun, hdown .loadAddress nofun,
    hdown .continueKey nofun, hdown .start nofun, hdown .stop nofun]

theorem SamePins.step (h : SamePins t v w) : (Panel.switches t w).step = (Panel.switches t v).step := by
  unfold Panel.switches
  rw [h .stepSwitch nofun]

end SamePins

section TwoMachines

open Processor

variable {m m' : Machine} {a a' : Action} {v w : PinVector} {p : Processor}

theorem Alike.refl (m : Machine) : m.Alike m :=
  ⟨Twin.refl m.processor, rfl, rfl, rfl, rfl, fun _ _ => rfl⟩

theorem Alike.acceptPins (h : m.Alike m') (hpins : SamePins m.panel.table v w) :
    (m'.acceptPins w).1 = (m.acceptPins v).1 ∧
      (m.acceptPins v).2.Alike (m'.acceptPins w).2 ∧
      (m'.acceptPins w).2.switches.step = (m.acceptPins v).2.switches.step := by
  have hkeys := h.written.keys hpins
  have hwrite : (m'.acceptPins w).1 = (m.acceptPins v).1 := by
    unfold Machine.acceptPins Panel.accept
    dsimp only
    rw [h.table, hkeys, h.running, hpins.step]
  obtain ⟨hrun, hhalted, hclock, hswitches, hpanel, htwin⟩ := acceptPins_same v m
  obtain ⟨hrun', hhalted', hclock', hswitches', hpanel', htwin'⟩ := acceptPins_same w m'
  refine ⟨hwrite, ⟨?_, ?_, ?_, ?_, ?_, ?_⟩, ?_⟩
  · exact (htwin.alike.symm.trans h.processor).trans htwin'.alike
  · rw [hclock', hclock, h.clock]
  · rw [hrun', hrun, hwrite, h.running]
  · rw [hhalted', hhalted, h.halted]
  · rw [hpanel', hpanel, h.table]
  · rw [hpanel', hpanel]
    exact hpins
  · rw [hswitches', hswitches, h.table, hpins.step]

theorem Alike.step (h : m.Alike m') (hhalted : m.halted = false)
    (hno : ¬ m.processor.ReadsSwitches m.clock.now) :
    SameEnd Machine.Alike (m.perform .step) (m'.perform .step) := by
  have hends : SameEnd (TwinResults m'.processor.regs.sr) (m.processor.step m.clock.now)
      (m'.processor.step m.clock.now) := Twin.step h.processor (.inr hno)
  unfold Machine.perform
  dsimp only
  rw [step_of_not_halted hhalted, step_of_not_halted (h.halted.trans hhalted), h.clock]
  cases hp : m.processor.step m.clock.now with
  | error f =>
    rw [hp] at hends
    rw [hends.of_error]
    exact .error f
  | ok r =>
    obtain ⟨o, q⟩ := r
    rw [hp] at hends
    obtain ⟨⟨o', q'⟩, hq, ho, htwin⟩ := hends.of_ok
    rw [hq]
    cases ho
    have hread : m'.clock.read.2 = m.clock.read.2 := by rw [h.clock]
    cases o with
    | proceed => exact .ok ⟨htwin.alike, hread, h.running, h.halted, h.table, h.written⟩
    | halted => exact .ok ⟨htwin.alike, hread, rfl, rfl, h.table, h.written⟩

theorem Alike.goOn (h : m.Alike m') (hswitch : m'.switches.step = m.switches.step)
    (hno : m.switches.step = true → ¬ m.processor.ReadsSwitches m.clock.now) :
    SameEnd Machine.Alike m.goOn m'.goOn := by
  have hgoing : Machine.Alike { m with halted := false } { m' with halted := false } :=
    ⟨h.processor, h.clock, h.running, rfl, h.table, h.written⟩
  unfold Machine.goOn
  rw [hswitch]
  cases hstep : m.switches.step with
  | true => exact hgoing.step rfl (hno hstep)
  | false =>
    have hprocessor : (m.processor.report [.running]).Alike (m'.processor.report [.running]) :=
      (Twin.report h.processor _ _).alike
    exact .ok ⟨hprocessor, h.clock, rfl, rfl, h.table, h.written⟩

/-- A write is allowed on either of two machines, brings a cycle to both or to none, and leaves
them the same, unless it executes an OSR. -/
theorem Alike.write (h : m.Alike m') (hc : Carries p m) (hpins : SamePins m.panel.table v w)
    (hallow : m.Allows (.write v)) (hno : p.NoOsr (m.inputs (.write v))) :
    m'.Allows (.write w) ∧ times (m'.inputs (.write w)) = times (m.inputs (.write v)) ∧
      SameEnd Machine.Alike (m.perform (.write v)) (m'.perform (.write w)) := by
  obtain ⟨hwrite, haccepted, hswitch⟩ := h.acceptPins hpins
  have hallow' : m'.Allows (.write w) := by
    unfold Allows at hallow ⊢
    dsimp only at hallow ⊢
    rw [hwrite, h.running]
    exact hallow
  refine ⟨hallow', ?_, ?_⟩
  · unfold inputs
    dsimp only
    rw [hwrite, haccepted.running, hswitch, h.clock]
    rfl
  · rw [perform_write hallow, perform_write hallow', hwrite, haccepted.running]
    split_ifs with hresumes
    · refine haccepted.goOn hswitch ?_
      intro hstep hreads
      obtain ⟨-, -, hclock, -, -, htwin⟩ := acceptPins_same v m
      have hinputs : m.inputs (.write v) =
          [.switches (Panel.switches m.panel.table v).switchRegister, .cycle m.clock.now] := by
        unfold inputs
        dsimp only
        rw [hresumes, hstep]
        rfl
      rw [hinputs] at hno
      rw [hclock] at hreads
      have hset : Twin p.regs.sr { p with regs.sr := (Panel.switches m.panel.table v).switchRegister }
          p := ⟨p.log, rfl⟩
      have hback := (hset.alike.trans (hc.alike.trans htwin.alike)).symm
      exact (hno.2 _ rfl).1 m.clock.now rfl (Twin.readsSwitches hback hreads)
    · exact .ok haccepted

/-- So is every action. -/
theorem Alike.perform (h : m.Alike m') (hc : Carries p m) (ha : Action.Same m.panel.table a a')
    (hallow : m.Allows a) (hno : p.NoOsr (m.inputs a)) :
    m'.Allows a' ∧ times (m'.inputs a') = times (m.inputs a) ∧
      SameEnd Machine.Alike (m.perform a) (m'.perform a') := by
  cases ha with
  | write hpins => exact h.write hc hpins hallow hno
  | refl =>
    cases a with
    | write v => exact h.write hc (fun _ _ => rfl) hallow hno
    | look => exact ⟨trivial, rfl, .ok h⟩
    | wait interval =>
      have hclock : m'.clock.advance interval = m.clock.advance interval := by rw [h.clock]
      exact ⟨trivial, rfl, .ok ⟨h.processor, hclock, h.running, h.halted, h.table, h.written⟩⟩
    | step =>
      refine ⟨trivial, ?_, ?_⟩
      · unfold inputs
        rw [h.halted, h.clock]
      · cases hhalted : m.halted with
        | true =>
          unfold Machine.perform
          dsimp only
          rw [step_of_halted hhalted, step_of_halted (h.halted.trans hhalted)]
          exact .ok h
        | false =>
          have hinputs : m.inputs .step = [.cycle m.clock.now] :=
            if_neg (Bool.eq_false_iff.mp hhalted)
          rw [hinputs] at hno
          refine h.step hhalted fun hreads => ?_
          exact hno.1 m.clock.now rfl (Twin.readsSwitches hc.alike.symm hreads)

theorem table_of_step (h : m.perform .step = .ok m') : m'.panel.table = m.panel.table := by
  unfold Machine.perform at h
  dsimp only at h
  cases hhalted : m.halted with
  | true =>
    rw [step_of_halted hhalted] at h
    cases h
    rfl
  | false =>
    rw [step_of_not_halted hhalted] at h
    cases hp : m.processor.step m.clock.now with
    | error f =>
      rw [hp] at h
      cases h
    | ok r =>
      obtain ⟨o, q⟩ := r
      rw [hp] at h
      cases h
      cases o <;> rfl

/-- The wiring stays as it is. -/
theorem table_of_perform (hallow : m.Allows a) (h : m.perform a = .ok m') :
    m'.panel.table = m.panel.table := by
  cases a with
  | step => exact table_of_step h
  | look =>
    cases h
    rfl
  | wait interval =>
    cases h
    rfl
  | write v =>
    obtain ⟨-, -, -, -, hpanel, -⟩ := acceptPins_same v m
    have htable : (m.acceptPins v).2.panel.table = m.panel.table := by rw [hpanel]
    rw [perform_write hallow] at h
    unfold goOn at h
    split_ifs at h
    · exact (table_of_step h).trans htable
    · cases h
      exact htable
    · cases h
      exact htable

theorem NoOsr.append {is js : List Input} (h : p.NoOsr (is ++ js)) :
    p.NoOsr is ∧ ∀ q, p.follow is = .ok q → q.NoOsr js := by
  induction is generalizing p with
  | nil =>
    refine ⟨trivial, ?_⟩
    rintro q ⟨⟩
    exact h
  | cons input is ih =>
    refine ⟨⟨h.1, fun q hq => (ih (h.2 q hq)).1⟩, ?_⟩
    intro q hq
    rw [follow_cons] at hq
    cases hreceive : p.receive input with
    | error f =>
      rw [hreceive] at hq
      cases hq
    | ok p' =>
      rw [hreceive] at hq
      exact (ih (h.2 p' hreceive)).2 q hq

/-- Where no OSR is executed, other switches lead to the same end. -/
theorem Session.alike {as as' : List Action} {is : List Input} {r : Except Fault Machine}
    (hs : Session m as is r) (hc : Carries p m) (h : m.Alike m')
    (ha : List.Forall₂ (Action.Same m.panel.table) as as') (hno : p.NoOsr is) :
    ∃ is' r', Session m' as' is' r' ∧ times is' = times is ∧ SameEnd Machine.Alike r r' := by
  induction hs generalizing p m' as' with
  | nil m =>
    cases ha
    exact ⟨[], .ok m', .nil m', rfl, .ok h⟩
  | fault hallow hperform =>
    cases ha with
    | cons hfirst _ =>
      obtain ⟨hallow', htimes, hends⟩ := h.perform hc hfirst hallow hno
      rw [hperform] at hends
      exact ⟨_, _, .fault hallow' hends.of_error, htimes, .error _⟩
  | cons hallow hperform _ ih =>
    cases ha with
    | cons hfirst hrest =>
      obtain ⟨hfirst', hrest'⟩ := NoOsr.append hno
      obtain ⟨hallow', htimes, hends⟩ := h.perform hc hfirst hallow hfirst'
      rw [hperform] at hends
      obtain ⟨m₁', hperform', hnext⟩ := hends.of_ok
      have hfollows := hc.perform hallow
      rw [hperform] at hfollows
      obtain ⟨q, hq, hcarries⟩ := (hfollows.symm (S := fun m q => Carries q m) id).of_ok
      rw [← table_of_perform hallow hperform] at hrest
      obtain ⟨is', r', hs', htimes', hends'⟩ := ih hcarries hnext hrest (hrest' q hq)
      refine ⟨_, r', .cons hallow' hperform' hs', ?_, hends'⟩
      unfold times at htimes htimes' ⊢
      rw [List.filterMap_append, List.filterMap_append, htimes, htimes']

theorem map_fst_cycles (sr : Word) (is : List Input) : (cycles sr is).map Prod.fst = times is := by
  induction is generalizing sr with
  | nil => rfl
  | cons input is ih =>
    cases input with
    | switches word => exact ih word
    | cycle now => exact congrArg (now :: ·) (ih sr)

/-- The panel never disturbs the program.  In every session, of any machine, the processor ends
exactly as if it had received its inputs one after another, the cycles and the settings of the
switch register.  So it does not matter how the cycles came about: sessions that begin with the same
processor and bring the same cycles, with the same switch register at each of them or with no OSR
executed, end with the same processor, whether somebody ran the machine, stopped it and went on, or
stepped it key by key.  And if no OSR is executed, the switch register may be set to anything else
with every write: the session is as possible as it was, has its cycles at the same times, and ends
with the same machine but for the switches. -/
theorem panel_neutral {as : List Action} {is : List Input} {r : Except Fault Machine}
    (hs : Session m as is r) :
    SameEnd (fun q m' => m'.processor = { q with log := m'.processor.log })
        (m.processor.follow is) r ∧
      (∀ m₂ as₂ is₂ r₂, Session m₂ as₂ is₂ r₂ → m.processor.Alike m₂.processor →
        cycles m.processor.regs.sr is = cycles m₂.processor.regs.sr is₂ ∨
          times is = times is₂ ∧ m.processor.NoOsr is →
        SameEnd (fun m' m₂' => m'.processor.Alike m₂'.processor) r r₂) ∧
      (m.processor.NoOsr is → ∀ as', List.Forall₂ (Action.Same m.panel.table) as as' →
        ∃ is' r', Session m as' is' r' ∧ times is' = times is ∧ SameEnd Machine.Alike r r') := by
  have hends := hs.carries (Twin.refl m.processor)
  refine ⟨?_, ?_, ?_⟩
  · refine hends.imp ?_
    rintro q m' ⟨log, heq⟩
    rw [heq]
    rfl
  · intro m₂ as₂ is₂ r₂ hs₂ hsame hcycles
    have hends₂ := hs₂.carries (Twin.refl m₂.processor)
    -- both are compared with the cycles of the second session
    have htimes : (cycles m₂.processor.regs.sr is₂).map Prod.fst = times is := by
      rw [map_fst_cycles]
      rcases hcycles with heq | ⟨heq, -⟩
      · rw [← map_fst_cycles m.processor.regs.sr is, heq, map_fst_cycles]
      · exact heq.symm
    have hrun := follow_runCycles hsame htimes (hcycles.imp Eq.symm And.right)
    have hrun₂ := follow_runCycles (Twin.refl m₂.processor) (map_fst_cycles _ is₂) (.inl rfl)
    have hfollow : SameEnd Processor.Alike (m.processor.follow is) (m₂.processor.follow is₂) :=
      hrun.trans (hrun₂.symm Processor.Alike.symm) Processor.Alike.trans
    have hleft : SameEnd (fun m' q => m'.processor.Alike q) r (m.processor.follow is) :=
      hends.symm fun h => (Twin.alike h).symm
    have hright : SameEnd (fun m' q => m'.processor.Alike q) r (m₂.processor.follow is₂) :=
      hleft.trans hfollow Processor.Alike.trans
    exact hright.trans hends₂ fun h h' => h.trans (Twin.alike h')
  · intro hno as' ha
    exact hs.alike (Twin.refl m.processor) (Alike.refl m) ha hno

/-- CONTINUE alone lets a stopped machine run, if the STEP switch is off. -/
theorem perform_continue (hrun : m.running = false)
    (hkeys : Panel.keys m.panel.table m.panel.written v = .only .continueKey)
    (hswitch : (Panel.switches m.panel.table v).step = false) :
    m.Allows (.write v) ∧
      m.inputs (.write v) = [.switches (Panel.switches m.panel.table v).switchRegister] ∧
      m.perform (.write v) =
        .ok { (m.withPins v).report .running with running := true, halted := false } := by
  have haccept : m.acceptPins v = (⟨.only .continueKey, false⟩, m.withPins v) :=
    acceptPins_eq hkeys (by rw [hrun, Bool.false_and])
  have hrun' : (m.withPins v).running = false := hrun
  have hswitch' : (m.withPins v).switches.step = false := hswitch
  have hallow : m.Allows (.write v) := by
    intro hdisturb
    rw [haccept] at hdisturb
    cases hdisturb
  refine ⟨hallow, ?_, ?_⟩
  · unfold inputs
    dsimp only
    rw [haccept, hrun', hswitch']
    rfl
  · rw [perform_write hallow, haccept, hrun']
    unfold goOn
    rw [hswitch']
    rfl

/-- CONTINUE on a machine that has just powered up, and the first step of its worker. -/
theorem panel_neutral_continued :
    let m := powerUp .standard .standard (.powerUp 10 .unconnected .unconnected) ⟨0, 1⟩
    let v := PinTable.standard.spread .continueKey 1 (.off PinTable.standard.pinCount)
    ∃ m', Session m [.write v, .step] [.switches 0, .cycle 0] (.ok m') ∧
      ∃ q, m.processor.follow [.switches 0, .cycle 0] = .ok q ∧
        m'.processor = { q with log := m'.processor.log } := by
  intro m v
  obtain ⟨hkeys, hswitches⟩ :=
    Panel.pressed_alone (show Signal.continueKey.acts = true from rfl) nofun PinTable.standard
  obtain ⟨hallow, hinputs, hwrite⟩ :=
    perform_continue (m := m) rfl hkeys (congrArg Switches.step hswitches)
  rw [show Panel.switches m.panel.table v = .off from hswitches] at hinputs
  let m₁ : Machine := { (m.withPins v).report .running with running := true, halted := false }
  have hpoll : m₁.processor.tty.poll 0 = .ok (m₁.processor.tty, []) := rfl
  obtain ⟨o, q, hstep⟩ := exists_step (p := m₁.processor) (sound_of_atBoundary rfl) hpoll
  have hperform : m₁.perform .step = .ok (m₁.stepped o q) := by
    unfold Machine.perform
    dsimp only
    rw [step_of_not_halted rfl, show m₁.clock.now = 0 from rfl, hstep]
  have hsession : Session m [.write v, .step] [.switches 0, .cycle 0] (.ok (m₁.stepped o q)) := by
    have hstepped : m₁.Allows .step := trivial
    have hcons := Session.cons hallow hwrite (.cons hstepped hperform (.nil _))
    rwa [hinputs] at hcons
  obtain ⟨q', hq', hend⟩ := ((panel_neutral hsession).1.symm id).of_ok
  exact ⟨_, hsession, q', hq', hend⟩

end TwoMachines

end Machine

end Pdp8
