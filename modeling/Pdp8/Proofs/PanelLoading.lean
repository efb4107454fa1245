import Pdp8.Proofs.Interrupts
import Pdp8.Proofs.Memory
import Pdp8.Proofs.PanelWrites

/-!
# Pdp8.Proofs.PanelLoading — loading an image by hand

An operator at rest selects an address, deposits words one after another, and starts the program.
Each word takes three writes of all pins, and each of them is a step of one setting
(`Pdp8.Proofs.PanelWrites`).  What is left to show here is what LOAD ADDRESS and DEPOSIT do to core
and to the fields, and that a word after a word makes a block, and a block after a block an image.
-/

namespace Pdp8

/-- What `checkReach` lets through. -/
theorem Address.checkReach_eq_ok_iff {fieldCount : Nat} {a : Address} :
    a.checkReach fieldCount = .ok () ↔ a.field.toNat ≤ 1 ∧ a.field.toNat < fieldCount := by
  unfold checkReach
  split_ifs with h1 h2
  · exact ⟨nofun, fun h => absurd h.1 (by omega)⟩
  · exact ⟨nofun, fun h => absurd h.2 (by omega)⟩
  · exact ⟨fun _ => ⟨by omega, by omega⟩, fun _ => rfl⟩

/-- PC and all the fields select an address. -/
structure Processor.AimedAt (a : Address) (p : Processor) : Prop where
  location : p.regs.pc = a.location
  dataField : p.fields.dataField = a.field
  instructionField : p.fields.instructionField = a.field
  fieldAfterJump : p.fields.fieldAfterJump = a.field

namespace Operator

open Machine

/-- An operator at rest, in front of a machine with `n` fields of core that hold some words. -/
structure Holds (n : Nat) (memory : Address → Word) (op : Operator) : Prop extends AtRest op where
  fieldCount : op.runner.machine.processor.core.fieldCount = n
  memory : op.runner.machine.processor.core.peek = memory
  enabled : op.runner.machine.processor.fields.enabled = false

variable {n : Nat} {memory : Address → Word} {op : Operator} {a : Address}

/-! ## LOAD ADDRESS -/

/-- The field switches select field 0 or 1. -/
theorem switchedField_eq {f : FieldNumber} (h : f.toNat ≤ 1) :
    switchedField (f.toNat % 2 ^ 1 != 0) = f := by
  revert h
  revert f
  decide

/-- The switch register holds a word. -/
theorem ofNat_switched (w : Word) : BitVec.ofNat 12 (w.toNat % 2 ^ 12) = w := by
  rw [Nat.mod_eq_of_lt w.isLt, BitVec.ofNat_toNat, BitVec.setWidth_eq]

/-- LOAD ADDRESS aims the machine, and leaves core alone. -/
theorem Holds.loadAddress (h : op.Holds n memory) (ha : a.field.toNat ≤ 1) :
    ∃ op', op.apply (Setting.loadAddress a) = .ok op' ∧ op'.Holds n memory ∧
      op'.runner.machine.processor.AimedAt a := by
  obtain ⟨op₁, happly₁, hrest₁, hset₁, hm₁⟩ :=
    h.toAtRest.apply_switch .instField rfl a.field.toNat
  obtain ⟨op₂, happly₂, hrest₂, hset₂, hm₂⟩ := hrest₁.apply_switch .dataField rfl a.field.toNat
  obtain ⟨op₃, happly₃, hrest₃, hset₃, hm₃⟩ :=
    hrest₂.apply_switch .switchRegister rfl a.location.toNat
  obtain ⟨op₄, v, happly₄, hrest₄, -, hv, hm₄⟩ :=
    hrest₃.apply_press .loadAddress rfl pressLoadAddress (fun _ => pressKeys_loadAddress)
      (fun _ => rfl) (fun _ => rfl)
  have hinst : op₃.runner.machine.panel.table.gather .instField v = a.field.toNat % 2 ^ 1 := by
    rw [hv .instField nofun, hset₃, hset₂, hset₁]
    rfl
  have hdata : op₃.runner.machine.panel.table.gather .dataField v = a.field.toNat % 2 ^ 1 := by
    rw [hv .dataField nofun, hset₃, hset₂]
    rfl
  have hlocation : op₃.runner.machine.panel.table.gather .switchRegister v =
      a.location.toNat % 2 ^ 12 := by
    rw [hv .switchRegister nofun, hset₃]
    rfl
  have hcore : ∃ b, op₄.runner.machine.processor.core =
      op.runner.machine.processor.core.read b := by
    rw [hm₄, hm₃, hm₂, hm₁]
    exact ⟨_, rfl⟩
  obtain ⟨b, hcore⟩ := hcore
  refine ⟨op₄, ?_, ⟨hrest₄, ?_, ?_, ?_⟩, ?_⟩
  · show op.apply ([(.instField, _)] ++ ([(.dataField, _)] ++ ([(.switchRegister, _)] ++
      Setting.press .loadAddress))) = _
    rw [apply_append happly₁, apply_append happly₂, apply_append happly₃]
    exact happly₄
  · rw [hcore]
    exact h.fieldCount
  · rw [hcore, Core.peek_of_read, h.memory]
  · rw [hm₄, hm₃, hm₂, hm₁]
    exact h.enabled
  · have hfield : switchedField (op₃.runner.machine.panel.table.gather .instField v != 0) =
        a.field := by
      rw [hinst]
      exact switchedField_eq ha
    rw [hm₄]
    refine ⟨?_, ?_, hfield, hfield⟩
    · show BitVec.ofNat 12 (op₃.runner.machine.panel.table.gather .switchRegister v) = _
      rw [hlocation]
      exact ofNat_switched a.location
    · show switchedField (op₃.runner.machine.panel.table.gather .dataField v != 0) = _
      rw [hdata]
      exact switchedField_eq ha

/-! ## DEPOSIT -/

/-- One word: the switch register is set, DEPOSIT is pressed and let go of, and PC advances. -/
theorem Holds.deposit (h : op.Holds n memory) (haim : op.runner.machine.processor.AimedAt a)
    (hfit : a.field.toNat < n) (w : Word) :
    ∃ op', op.apply ((.switchRegister, w.toNat) :: Setting.press .deposit) = .ok op' ∧
      op'.Holds n (Function.update memory a w) ∧
      op'.runner.machine.processor.AimedAt ⟨a.field, a.location + 1⟩ := by
  obtain ⟨op₁, happly₁, hrest₁, hset₁, hm₁⟩ :=
    h.toAtRest.apply_switch .switchRegister rfl w.toNat
  obtain ⟨op₂, v, happly₂, hrest₂, -, hv, hm₂⟩ :=
    hrest₁.apply_press .deposit rfl pressDeposit (fun _ => pressKeys_deposit) (fun _ => rfl)
      (fun _ => rfl)
  have hword : op₁.runner.machine.panel.table.gather .switchRegister v = w.toNat % 2 ^ 12 := by
    rw [hv .switchRegister nofun, hset₁]
    rfl
  let p := op.runner.machine.processor
  have hplace : (⟨p.fields.dataField, p.regs.pc⟩ : Address) = a := by
    rw [haim.dataField, haim.location]
  have hcore : op₂.runner.machine.processor.core = p.core.write a w := by
    have hwrite : op₂.runner.machine.processor.core =
        p.core.write ⟨p.fields.dataField, p.regs.pc⟩
          (BitVec.ofNat 12 (op₁.runner.machine.panel.table.gather .switchRegister v)) := by
      rw [hm₂, hm₁]
      rfl
    rw [hwrite, hplace, hword, ofNat_switched]
  have hfitted : p.core.isFitted a.field = true := by
    unfold Core.isFitted
    rw [h.fieldCount]
    exact decide_eq_true hfit
  refine ⟨op₂, ?_, ⟨hrest₂, ?_, ?_, ?_⟩, ?_, ?_, ?_, ?_⟩
  · show op.apply ([(.switchRegister, _)] ++ Setting.press .deposit) = _
    rw [apply_append happly₁]
    exact happly₂
  · rw [hcore, Core.fieldCount_write]
    exact h.fieldCount
  · rw [hcore, Core.peek_write_of_fitted hfitted, h.memory]
  · rw [hm₂, hm₁]
    exact h.enabled
  · rw [hm₂, hm₁]
    exact congrArg (· + 1) haim.location
  · rw [hm₂, hm₁]
    exact haim.dataField
  · rw [hm₂, hm₁]
    exact haim.instructionField
  · rw [hm₂, hm₁]
    exact haim.fieldAfterJump

/-- Words one after another: the induction is on the words, and what is known of the machine says
where the next one goes. -/
theorem Holds.depositAll (h : op.Holds n memory) (haim : op.runner.machine.processor.AimedAt a)
    (hfit : a.field.toNat < n) (words : List Word) :
    ∃ op', op.apply (Setting.deposit (words.map BitVec.toNat)) = .ok op' ∧
      op'.Holds n (storeFrom memory a words) := by
  induction words generalizing op memory a with
  | nil => exact ⟨op, rfl, h⟩
  | cons w ws ih =>
    obtain ⟨op₁, happly₁, h₁, haim₁⟩ := h.deposit haim hfit w
    obtain ⟨op₂, happly₂, h₂⟩ := ih h₁ haim₁ hfit
    refine ⟨op₂, ?_, h₂⟩
    show op.apply (((.switchRegister, w.toNat) :: Setting.press .deposit) ++
      Setting.deposit (ws.map BitVec.toNat)) = _
    rw [apply_append happly₁]
    exact happly₂

/-! ## Blocks -/

theorem Holds.loadBlock (h : op.Holds n memory) {b : Block}
    (hb : b.start.checkReach n = .ok ()) :
    ∃ op', op.apply (Setting.load b) = .ok op' ∧
      op'.Holds n (storeFrom memory b.start b.words) := by
  obtain ⟨hswitch, hfit⟩ := Address.checkReach_eq_ok_iff.mp hb
  obtain ⟨op₁, happly₁, h₁, haim₁⟩ := h.loadAddress hswitch
  obtain ⟨op₂, happly₂, h₂⟩ := h₁.depositAll haim₁ hfit b.words
  refine ⟨op₂, ?_, h₂⟩
  unfold Setting.load
  rw [apply_append happly₁]
  exact happly₂

/-- Blocks in order, whether or not they overlap. -/
theorem Holds.load (h : op.Holds n memory) {blocks : List Block}
    (hblocks : ∀ b ∈ blocks, b.start.checkReach n = .ok ()) :
    ∃ op', op.load blocks = .ok op' ∧ op'.Holds n (storeBlocks memory blocks) := by
  unfold Operator.load
  induction blocks generalizing op memory with
  | nil => exact ⟨op, rfl, h⟩
  | cons b bs ih =>
    obtain ⟨hb, hbs⟩ := List.forall_mem_cons.mp hblocks
    obtain ⟨op₁, happly₁, h₁⟩ := h.loadBlock hb
    obtain ⟨op₂, happly₂, h₂⟩ := ih h₁ hbs
    refine ⟨op₂, ?_, h₂⟩
    rw [List.flatMap_cons, apply_append happly₁]
    exact happly₂

end Operator

/-! ## START -/

namespace Machine

/-- The machine runs, with a program at an address: nothing is under way, the fields and PC select
the address, AC and the link are clear, and interrupts are off. -/
structure Poised (memory : Address → Word) (a : Address) (m : Machine) : Prop where
  running : m.running = true
  halted : m.halted = false
  cycle : m.processor.cycle = .idle
  aimed : m.processor.AimedAt a
  ac : m.processor.regs.ac = 0
  link : m.processor.regs.link = false
  enabled : m.processor.fields.enabled = false
  memory : m.processor.core.peek = memory

variable {m : Machine} {memory : Address → Word} {a : Address}

/-- A step of a machine that is not halted is a step of its processor. -/
theorem step_of_processor {r : Outcome × Processor} (hhalted : m.halted = false)
    (hs : m.processor.step m.clock.now = .ok r) :
    ∃ m', m.step = .ok (r.1, m') ∧ m'.processor = r.2 := by
  obtain ⟨o, q⟩ := r
  unfold step Clock.read
  rw [hhalted]
  dsimp only
  rw [hs]
  cases o
  · exact ⟨_, rfl, rfl⟩
  · exact ⟨_, rfl, rfl⟩

/-- The first step fetches the word at that address. -/
theorem Poised.step (h : m.Poised memory a) {tty : Teletype} {events : List Event}
    (hpoll : m.processor.tty.poll m.clock.now = .ok (tty, events)) :
    ∃ o m', m.step = .ok (o, m') ∧ m'.processor.core.last = ⟨a, memory a⟩ ∧
      m'.processor.fetchedFrom = a.location ∧
      m'.processor.current = .decode (memory a) := by
  have hb : m.processor.atBoundary = true := by
    unfold Processor.atBoundary
    rw [h.cycle]
  have hhome : m.processor.home = a := by
    unfold Processor.home
    rw [h.aimed.instructionField, h.aimed.location]
  have hoff : ¬ m.processor.fields.willInterrupt tty.interruptRequest = true := by
    unfold Extension.willInterrupt
    rw [h.enabled]
    exact Bool.false_ne_true
  let polled : Processor :=
    { m.processor with tty := tty, log := events.reverse ++ m.processor.log }
  have hpolled : m.processor.poll m.clock.now = .ok polled :=
    Processor.poll_eq_ok_iff.mpr ⟨tty, events, hpoll, rfl⟩
  have hs := (Processor.step_of_atBoundary hb m.clock.now).trans
    ((Processor.fetch_eq_of_poll hpolled).trans (if_neg hoff))
  have hword : polled.nextWord = memory a := by
    rw [← h.memory, ← hhome]
    rfl
  have hcontrol := Processor.sameControl_fetch polled
  obtain ⟨m', hm', hq⟩ := step_of_processor h.halted hs
  refine ⟨_, m', hm', ?_, ?_, ?_⟩
  · rw [hq, Processor.core_fetch polled, ← hword, ← hhome]
    rfl
  · rw [hq, hcontrol.fetchedFrom, Processor.fetchedFrom_loadInstruction]
    exact h.aimed.location
  · rw [hq, hcontrol.current, Processor.current_loadInstruction, hword]

end Machine

namespace Operator

variable {n : Nat} {memory : Address → Word} {op : Operator} {a : Address}

/-- START sets a machine that has been aimed going, from the moment it is pressed. -/
theorem Holds.start (h : op.Holds n memory) (haim : op.runner.machine.processor.AimedAt a) :
    ∃ op₁ op₂, op.apply [(.start, 1)] = .ok op₁ ∧ op₁.apply [(.start, 0)] = .ok op₂ ∧
      op₁.runner.machine.Poised memory a ∧ op₂.runner.machine.Poised memory a := by
  obtain ⟨op₁, op₂, v, happly₁, happly₂, -, hm₁, hm₂⟩ := h.toAtRest.apply_start
  have hpoised : op₁.runner.machine.Poised memory a := by
    rw [hm₁]
    exact ⟨rfl, rfl, rfl, ⟨haim.location, haim.dataField, haim.instructionField,
      haim.fieldAfterJump⟩, rfl, rfl, h.enabled, h.memory⟩
  refine ⟨op₁, op₂, happly₁, happly₂, hpoised, ?_⟩
  rw [hm₂]
  exact ⟨hpoised.running, hpoised.halted, hpoised.cycle, ⟨hpoised.aimed.location,
    hpoised.aimed.dataField, hpoised.aimed.instructionField, hpoised.aimed.fieldAfterJump⟩,
    hpoised.ac, hpoised.link, hpoised.enabled, hpoised.memory⟩

/-- A machine that has just been built is at rest, with nothing in core. -/
theorem holds_of_build {setup : Setup} {table : PinTable} {keyboard : Keyboard} {sink : Sink}
    {clock : Clock} {r : Runner} (h : Runner.build setup table keyboard sink clock = .ok r) :
    (ofRunner r).Holds setup.fieldCount fun _ => 0 := by
  unfold Runner.build at h
  split at h
  · cases h
  · rename_i hvalid
    cases h
    have hcount := ((Setup.validate_eq_ok_iff setup).mp hvalid).1.2
    exact ⟨atRest_ofRunner, Nat.min_eq_left hcount, funext (Core.peek_blank _), rfl⟩

/-- Loading an image by hand is exact, whatever the wiring of the panel.  On a newly built machine
blocks that the panel can reach end up in core as `storeBlocks` says, and START at an address that
it can reach makes the first fetch come from there: from the moment the key goes down the machine
is poised, and it still is when the key is up again. -/
theorem load_then_start {setup : Setup} {table : PinTable} {keyboard : Keyboard} {sink : Sink}
    {clock : Clock} {r : Runner} {blocks : List Block}
    (hbuild : Runner.build setup table keyboard sink clock = .ok r)
    (hblocks : ∀ b ∈ blocks, b.start.checkReach setup.fieldCount = .ok ()) :
    ∃ op, (ofRunner r).load blocks = .ok op ∧
      op.runner.machine.processor.core.peek = storeBlocks (fun _ => 0) blocks ∧
      ∀ start : Address, start.checkReach setup.fieldCount = .ok () →
        ∃ op₁ op₂, op.apply (Setting.loadAddress start ++ [(.start, 1)]) = .ok op₁ ∧
          op₁.apply [(.start, 0)] = .ok op₂ ∧
          ∀ m ∈ [op₁.runner.machine, op₂.runner.machine],
            m.Poised (storeBlocks (fun _ => 0) blocks) start ∧
              ∀ tty events, m.processor.tty.poll m.clock.now = .ok (tty, events) →
                ∃ o m', m.step = .ok (o, m') ∧
                  m'.processor.core.last = ⟨start, storeBlocks (fun _ => 0) blocks start⟩ ∧
                  m'.processor.fetchedFrom = start.location ∧
                  m'.processor.current = .decode (storeBlocks (fun _ => 0) blocks start) := by
  obtain ⟨op, hload, h⟩ := (holds_of_build hbuild).load hblocks
  refine ⟨op, hload, h.memory, ?_⟩
  intro start hstart
  obtain ⟨hswitch, -⟩ := Address.checkReach_eq_ok_iff.mp hstart
  obtain ⟨op₀, happly₀, h₀, haim⟩ := h.loadAddress hswitch
  obtain ⟨op₁, op₂, happly₁, happly₂, hpoised₁, hpoised₂⟩ := h₀.start haim
  refine ⟨op₁, op₂, ?_, happly₂, ?_⟩
  · rw [apply_append happly₀]
    exact happly₁
  · intro m hm
    have hpoised : m.Poised (storeBlocks (fun _ => 0) blocks) start := by
      rcases List.mem_pair.mp hm with rfl | rfl
      · exact hpoised₁
      · exact hpoised₂
    exact ⟨hpoised, fun tty events hpoll => hpoised.step hpoll⟩

/-- A block that wraps from 1.7777 to 1.0000, and one that overwrites a part of it. -/
theorem load_then_start_wrapping :
    let r := Runner.powerUp .standard .standard .unconnected .unconnected ⟨0, 1⟩
    let blocks : List Block := [⟨⟨1, 0o7777⟩, [0o7001, 0o7402]⟩, ⟨⟨1, 0⟩, [0o5200]⟩]
    ∃ op op₁, (ofRunner r).load blocks = .ok op ∧
      op.runner.machine.processor.core.peek ⟨1, 0o7777⟩ = 0o7001 ∧
      op.runner.machine.processor.core.peek ⟨1, 0⟩ = 0o5200 ∧
      op.runner.machine.processor.core.peek ⟨0, 0⟩ = 0 ∧
      op.apply (Setting.loadAddress ⟨1, 0o7777⟩ ++ [(.start, 1)]) = .ok op₁ ∧
      op₁.runner.machine.processor.AimedAt ⟨1, 0o7777⟩ := by
  intro r blocks
  have hbuild : Runner.build .standard .standard .unconnected .unconnected ⟨0, 1⟩ = .ok r := rfl
  have hblocks : ∀ b ∈ blocks, b.start.checkReach Setup.standard.fieldCount = .ok () := by decide
  obtain ⟨op, hload, hmemory, hstart⟩ := load_then_start hbuild hblocks
  obtain ⟨op₁, op₂, happly, -, hpoised⟩ := hstart ⟨1, 0o7777⟩ rfl
  refine ⟨op, op₁, hload, ?_, ?_, ?_, happly, (hpoised _ List.mem_cons_self).1.aimed⟩
  · rw [hmemory]
    decide
  · rw [hmemory]
    decide
  · rw [hmemory]
    decide

end Operator

end Pdp8
