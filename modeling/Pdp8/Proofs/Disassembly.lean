import Pdp8.Proofs.Assembly
import Pdp8.Proofs.Refinement

/-!
# Pdp8.Proofs.Disassembly — a text says what its instruction does

Two words with the same text do the same, in every state and in as many cycles, although the
printer and the processor read their bits by tables of their own.  So a machine that holds one of
them can be set beside a machine that holds the other: as long as the instruction does not read its
own place again, the two stay alike but for that place (`AgreeExcept`).
-/

namespace Pdp8

namespace Architecture

variable {word word' home : Word}

/-! ## Words with the same text -/

/-- A memory reference or a jump, with its operand at hand. -/
theorem perform_of_reference (h : word.toNat / 0o1000 < 6) (s : Architecture) :
    s.perform word home =
      (.proceed,
        let r := s.operand word home
        if word.toNat / 0o1000 = 5 then r.2.goTo r.1.location
        else r.2.refer (word.toNat / 0o1000) r.1) := by
  unfold perform
  generalize word.toNat / 0o1000 = d at h
  match d, h with
  | 0, _ => rfl
  | 1, _ => rfl
  | 2, _ => rfl
  | 3, _ => rfl
  | 4, _ => rfl
  | 5, _ => rfl

theorem perform_of_transfer (h : word.toNat / 0o1000 = 6) (s : Architecture) :
    s.perform word home = (.proceed, s.transfer word) := by
  unfold perform
  rw [h]
  rfl

theorem perform_of_operate (h : word.toNat / 0o1000 = 7) (s : Architecture) :
    s.perform word home = s.operate word := by
  unfold perform
  rw [h]
  rfl

/-- Nothing is lost with the group of an instruction that does nothing, or only clears AC. -/
theorem perform_plain (word home : Word) (s : Architecture) :
    s.perform (Instruction.plain word) home = s.perform word home := by
  unfold Instruction.plain
  split
  · rename_i h
    rw [h]
    rfl
  · split
    · rename_i h
      rw [h]
      rfl
    · rfl

section SameText

open Instruction

variable (h : SameText home word word')
include h

theorem perform_of_sameText (s : Architecture) : s.perform word' home = s.perform word home := by
  rcases Nat.lt_or_ge (word.toNat / 0o1000) 6 with hlt | hle
  · have hoperand : s.operand word' home = s.operand word home := by
      unfold operand
      rw [h.named hlt, h.indirect hlt]
    rw [perform_of_reference hlt, perform_of_reference (h.digit ▸ hlt), hoperand, h.digit]
  · rw [← perform_plain word', h.plain hle, perform_plain]

theorem cycles_of_sameText : cycles word' = cycles word := by
  unfold cycles
  rw [h.digit]
  split
  · rfl
  · rename_i hlt
    rw [h.indirect (by omega)]

end SameText

theorem cycles_bounds (word : Word) : 1 ≤ cycles word ∧ cycles word ≤ 3 := by
  have hbit : (word.getLsbD 8).toNat ≤ 1 := Bool.toNat_le _
  unfold cycles
  split
  · omega
  · split <;> omega

/-! ## States that differ in one place -/

/-- Two states that differ at most in the word at `a`. -/
structure AgreeExcept (a : Address) (s t : Architecture) : Prop where
  rest : t = { s with memory := t.memory }
  memory : ∀ b, b ≠ a → t.memory b = s.memory b

/-- The places that an instruction reads after its fetch: its pointer, and its operand if it is AND,
TAD or ISZ. -/
def reads (word home : Word) (s : Architecture) : List Address :=
  (if word.toNat / 0o1000 < 6 ∧ word.getLsbD 8 then
    [⟨s.fields.instructionField, named word home⟩]
  else []) ++
  if word.toNat / 0o1000 < 3 then [(s.operand word home).1] else []

/-- What is read is settled by the fields and core. -/
theorem reads_congr {s t : Architecture}
    (hinstruction : t.fields.instructionField = s.fields.instructionField)
    (hdata : t.fields.dataField = s.fields.dataField) (hmemory : t.memory = s.memory) :
    t.reads word home = s.reads word home := by
  have hpointer (a : Address) : (t.follow a).1 = (s.follow a).1 := by
    unfold follow
    rw [hmemory]
    split_ifs <;> rfl
  have hoperand : (t.operand word home).1 = (s.operand word home).1 := by
    cases hi : word.getLsbD 8 with
    | false => rw [operand_direct hi, operand_direct hi, hinstruction]
    | true =>
      rw [operand_indirect hi, operand_indirect hi]
      dsimp only
      rw [fields_follow, fields_follow, hpointer, hinstruction, hdata]
  unfold reads
  rw [hoperand, hinstruction]

/-- A change of the state that neither depends on core nor touches it. -/
def Oblivious (f : Architecture → Architecture) : Prop :=
  ∀ s memory, f { s with memory := memory } = { f s with memory := memory }

section Oblivious

theorem oblivious_transferFields (code : Word) : Oblivious (transferFields code) := by
  intro s memory
  unfold transferFields
  dsimp only
  split
  · rfl
  · rfl
  · rfl
  · split <;> rfl
  · rfl

theorem oblivious_transferTeletype (code : Word) : Oblivious (transferTeletype code) := by
  intro s memory
  unfold transferTeletype
  dsimp only
  split
  case h_1 | h_6 | h_9 => split_ifs <;> rfl
  all_goals rfl

theorem oblivious_transfer (code : Word) : Oblivious (transfer code) := by
  intro s memory
  unfold transfer
  split_ifs
  · rfl
  · rfl
  · exact oblivious_transferFields code s memory
  · exact oblivious_transferTeletype code s memory

theorem oblivious_operate (word : Word) : Oblivious fun s => (s.operate word).2 := by
  intro s memory
  dsimp only [operate]
  split_ifs <;> rfl

theorem fst_operate (word : Word) (s : Architecture) (memory : Address → Word) :
    (operate word { s with memory := memory }).1 = (s.operate word).1 := by
  unfold operate
  split_ifs <;> rfl

end Oblivious

namespace AgreeExcept

variable {a b : Address} {s t : Architecture}

theorem symm (h : AgreeExcept a s t) : AgreeExcept a t s where
  rest := by
    rw [h.rest]
  memory b hb := (h.memory b hb).symm

theorem map {f : Architecture → Architecture} (h : AgreeExcept a s t) (hf : Oblivious f) :
    AgreeExcept a (f s) (f t) := by
  have hmemory (s : Architecture) : (f s).memory = s.memory := by
    have hself := congrArg Architecture.memory (hf s s.memory)
    exact hself
  refine ⟨?_, ?_⟩
  · rw [hmemory t, ← hf s t.memory, ← h.rest]
  · rw [hmemory, hmemory]
    exact h.memory

theorem fields (h : AgreeExcept a s t) : t.fields = s.fields := by
  rw [h.rest]

theorem advance (h : AgreeExcept a s t) : AgreeExcept a s.advance t.advance :=
  h.map fun _ _ => rfl

theorem skip (h : AgreeExcept a s t) : AgreeExcept a s.skip t.skip := h.map fun _ _ => rfl

theorem goTo (h : AgreeExcept a s t) (target : Word) :
    AgreeExcept a (s.goTo target) (t.goTo target) := h.map fun _ _ => rfl

/-- A word may be stored anywhere. -/
theorem store (h : AgreeExcept a s t) (b : Address) (w : Word) :
    AgreeExcept a (s.store b w) (t.store b w) := by
  refine ⟨?_, ?_⟩
  · rw [h.rest]
    rfl
  · have hcount : t.fieldCount = s.fieldCount := by rw [h.rest]
    intro c hc
    unfold Architecture.store
    rw [hcount]
    dsimp only
    split
    · by_cases hcb : c = b
      · rw [hcb, Function.update_self, Function.update_self]
      · rw [Function.update_of_ne hcb, Function.update_of_ne hcb, h.memory c hc]
    · exact h.memory c hc

/-- A pointer elsewhere is the same in both. -/
theorem follow (h : AgreeExcept a s t) (hb : b ≠ a) :
    (t.follow b).1 = (s.follow b).1 ∧ AgreeExcept a (s.follow b).2 (t.follow b).2 := by
  unfold Architecture.follow
  rw [h.memory b hb]
  split
  · exact ⟨rfl, h.store b _⟩
  · exact ⟨rfl, h⟩

theorem operand (h : AgreeExcept a s t) {word home : Word}
    (hpointer : word.getLsbD 8 = true → ⟨s.fields.instructionField, named word home⟩ ≠ a) :
    (t.operand word home).1 = (s.operand word home).1 ∧
      AgreeExcept a (s.operand word home).2 (t.operand word home).2 := by
  cases hi : word.getLsbD 8 with
  | false =>
    rw [operand_direct hi, operand_direct hi, h.fields]
    exact ⟨rfl, h⟩
  | true =>
    have hfollow := h.follow (hpointer hi)
    rw [operand_indirect hi, operand_indirect hi, h.fields]
    refine ⟨?_, hfollow.2⟩
    dsimp only
    rw [hfollow.1, hfollow.2.fields]

theorem and (h : AgreeExcept a s t) (hb : b ≠ a) : AgreeExcept a (s.and b) (t.and b) := by
  unfold Architecture.and
  rw [h.memory b hb]
  exact h.map (f := fun s => { s with lac := s.lac &&& _ }) fun _ _ => rfl

theorem tad (h : AgreeExcept a s t) (hb : b ≠ a) : AgreeExcept a (s.tad b) (t.tad b) := by
  unfold Architecture.tad
  rw [h.memory b hb]
  exact h.map (f := fun s => { s with lac := s.lac + _ }) fun _ _ => rfl

theorem isz (h : AgreeExcept a s t) (hb : b ≠ a) : AgreeExcept a (s.isz b) (t.isz b) := by
  unfold Architecture.isz
  rw [h.memory b hb]
  split
  · exact (h.store b _).skip
  · exact h.store b _

theorem dca (h : AgreeExcept a s t) (b : Address) : AgreeExcept a (s.dca b) (t.dca b) := by
  have hac : t.ac = s.ac := by
    rw [h.rest]
    rfl
  have hlac : t.lac = s.lac := by rw [h.rest]
  unfold Architecture.dca
  rw [hac, hlac]
  exact (h.store b s.ac).map (f := fun u => { u with lac := s.lac &&& 0o10000 }) fun _ _ => rfl

theorem jms (h : AgreeExcept a s t) (target : Word) :
    AgreeExcept a (s.jms target) (t.jms target) := by
  have hpc : t.pc = s.pc := by rw [h.rest]
  unfold Architecture.jms
  rw [hpc, h.fields]
  exact (h.goTo _).store _ _

/-- A memory reference to any place, but one that it reads. -/
theorem refer (h : AgreeExcept a s t) (d : Nat) (hb : d < 3 → b ≠ a) :
    AgreeExcept a (s.refer d b) (t.refer d b) := by
  match d with
  | 0 => exact h.and (hb (by omega))
  | 1 => exact h.tad (hb (by omega))
  | 2 => exact h.isz (hb (by omega))
  | 3 => exact h.dca b
  | d + 4 => exact h.jms b.location

/-- An instruction that does not read the place again does the same in both. -/
theorem perform (h : AgreeExcept a s t) {word home : Word} (hreads : a ∉ s.reads word home) :
    (t.perform word home).1 = (s.perform word home).1 ∧
      AgreeExcept a (s.perform word home).2 (t.perform word home).2 := by
  rcases Nat.lt_or_ge (word.toNat / 0o1000) 6 with hlt | hle
  · unfold reads at hreads
    rw [List.mem_append, not_or] at hreads
    have hpointer (hi : word.getLsbD 8 = true) :
        (⟨s.fields.instructionField, named word home⟩ : Address) ≠ a := by
      rw [if_pos ⟨hlt, hi⟩, List.mem_singleton] at hreads
      exact Ne.symm hreads.1
    have hplace (hd : word.toNat / 0o1000 < 3) : (s.operand word home).1 ≠ a := by
      rw [if_pos hd, List.mem_singleton] at hreads
      exact Ne.symm hreads.2
    obtain ⟨hsame, hafter⟩ := h.operand hpointer
    rw [perform_of_reference hlt, perform_of_reference hlt]
    refine ⟨rfl, ?_⟩
    dsimp only
    rw [hsame]
    split
    · exact hafter.goTo _
    · exact hafter.refer _ hplace
  · have hdigit : word.toNat / 0o1000 = 6 ∨ word.toNat / 0o1000 = 7 := by
      have := word.isLt
      omega
    rcases hdigit with hd | hd
    · rw [perform_of_transfer hd, perform_of_transfer hd]
      exact ⟨rfl, h.map (oblivious_transfer word)⟩
    · rw [perform_of_operate hd, perform_of_operate hd]
      refine ⟨?_, h.map (oblivious_operate word)⟩
      rw [h.rest]
      exact fst_operate word s t.memory

/-- If the instructions at IF:PC have the same text, they do the same. -/
theorem instruction (h : AgreeExcept a s t)
    (htext : Instruction.SameText s.pc (s.memory s.home) (t.memory t.home))
    (hreads : a ∉ s.reads (s.memory s.home) s.pc) :
    t.instruction.1 = s.instruction.1 ∧ AgreeExcept a s.instruction.2 t.instruction.2 := by
  have hpc : t.pc = s.pc := by rw [h.rest]
  unfold Architecture.instruction
  rw [hpc, perform_of_sameText htext]
  refine h.advance.perform ?_
  have hsame : s.advance.reads (s.memory s.home) s.pc = s.reads (s.memory s.home) s.pc :=
    reads_congr rfl rfl rfl
  rw [hsame]
  exact hreads

theorem interrupt (h : AgreeExcept a s t) : AgreeExcept a s.interrupt t.interrupt := by
  have hpc : t.pc = s.pc := by rw [h.rest]
  have hsaved := h.map (f := saveFields) fun _ _ => rfl
  unfold Architecture.interrupt
  rw [hpc]
  exact (hsaved.store .zero s.pc).map (f := fun u => { u with pc := 1 }) fun _ _ => rfl

end AgreeExcept

end Architecture

namespace Processor

/-! ## Instructions end once -/

/-- Steps that complete an instruction are no beginning of others that do. -/
theorem Completes.extra_eq_nil {times extra : List Time} {p q q' : Processor} {o o' : Outcome}
    (h : Completes times p o q) (h' : Completes (times ++ extra) p o' q') : extra = [] := by
  induction h with
  | last hs hq =>
    cases h' with
    | last _ _ => rfl
    | next hs' hoff _ =>
      rw [hs] at hs'
      cases hs'
      rw [hq] at hoff
      cases hoff
  | @next now later _ _ _ _ hs _ hrest ih =>
    generalize hall : later ++ extra = all at h' ih
    rw [List.cons_append, hall] at h'
    cases h' with
    | last _ _ =>
      obtain ⟨rfl, -⟩ := List.append_eq_nil_iff.mp hall
      cases hrest
    | next hs' _ hrest' =>
      rw [hs] at hs'
      cases hs'
      exact ih hrest'

/-- If any steps of a number complete an instruction, no others do. -/
theorem Completes.length_eq {now : Time} {times : List Time} {n : Nat} {p q : Processor}
    {o : Outcome} (h : Completes (now :: times) p o q)
    (hall : ∀ later : List Time, later.length = n → ∃ o q, Completes (now :: later) p o q) :
    times.length = n := by
  rcases Nat.lt_or_ge times.length n with hlt | hle
  · obtain ⟨o', q', h'⟩ := hall (times ++ List.replicate (n - times.length) 0) (by simp; omega)
    have hlen := congrArg List.length (h.extra_eq_nil h')
    rw [List.length_replicate, List.length_nil] at hlen
    omega
  · obtain ⟨o', q', h'⟩ := hall (times.take n) (List.length_take_of_le hle)
    rw [← List.take_append_drop n times] at h
    have hlen := congrArg List.length (h'.extra_eq_nil h)
    rw [List.length_drop, List.length_nil] at hlen
    omega

/-! ## Two machines side by side -/

open Architecture

/-- The steps at some times complete an instruction in both, and leave them alike but for `a`. -/
def EndAlike (a : Address) (times : List Time) (p q : Processor) : Prop :=
  ∃ o p' q', Completes times p o p' ∧ Completes times q o q' ∧
    AgreeExcept a p'.architecture q'.architecture

/-- Two states of which each completes its instruction as the other does, after the same number of
steps: the two end alike but for `a`. -/
structure CompleteAlike (a : Address) (p q : Processor) : Prop where
  /-- A failing teletype stops both, -/
  fails : ∀ now f, p.tty.poll now = .error f → p.step now = .error f ∧ q.step now = .error f
  /-- and if it does not fail, then at most two more steps complete the instruction of either. -/
  ends : ∀ now tty events, p.tty.poll now = .ok (tty, events) →
    ∃ n ≤ 2, ∀ later : List Time, later.length = n → EndAlike a (now :: later) p q
  forth : ∀ times o p', Completes times p o p' →
    ∃ q', Completes times q o q' ∧ AgreeExcept a p'.architecture q'.architecture
  back : ∀ times o q', Completes times q o q' →
    ∃ p', Completes times p o p' ∧ AgreeExcept a p'.architecture q'.architecture

section Alike

variable {a : Address} {p q polled : Processor} {now : Time}

/-- What the first of some completing steps polls. -/
theorem Completes.exists_poll {times : List Time} {o : Outcome} {p' : Processor}
    (h : Completes times p o p') (hb : p.atBoundary = true) :
    ∃ now later polled, times = now :: later ∧ p.poll now = .ok polled := by
  have hpoll {now : Time} {r : Outcome × Processor} (hs : p.step now = .ok r) :
      ∃ polled, p.poll now = .ok polled := by
    rw [step_of_atBoundary hb] at hs
    obtain ⟨polled, hp, -⟩ := fetch_eq_ok_iff.mp hs
    exact ⟨polled, hp⟩
  cases h with
  | last hs _ =>
    obtain ⟨polled, hp⟩ := hpoll hs
    exact ⟨_, _, polled, rfl, hp⟩
  | next hs _ _ =>
    obtain ⟨polled, hp⟩ := hpoll hs
    exact ⟨_, _, polled, rfl, hp⟩

theorem EndAlike.symm {times : List Time} (h : EndAlike a times p q) : EndAlike a times q p := by
  obtain ⟨o, p', q', hp, hq, hagree⟩ := h
  exact ⟨o, q', p', hq, hp, hagree.symm⟩

/-- Steps that complete an instruction lead where steps of the right number do. -/
theorem matched (hb : p.atBoundary = true)
    (hends : ∀ now polled, p.poll now = .ok polled →
      ∃ n, ∀ later : List Time, later.length = n → EndAlike a (now :: later) p q)
    {times : List Time} {o : Outcome} {p' : Processor} (h : Completes times p o p') :
    ∃ q', Completes times q o q' ∧ AgreeExcept a p'.architecture q'.architecture := by
  obtain ⟨now, later, polled, rfl, hpoll⟩ := h.exists_poll hb
  obtain ⟨n, hall⟩ := hends now polled hpoll
  have hlen : later.length = n := by
    refine h.length_eq fun later hlater => ?_
    obtain ⟨o', p'', -, hp, -⟩ := hall later hlater
    exact ⟨o', p'', hp⟩
  obtain ⟨o', p'', q', hp, hq, hagree⟩ := hall later hlen
  obtain ⟨rfl, rfl⟩ := h.unique hp
  exact ⟨q', hq, hagree⟩

/-- Two states that differ at most in the word at IF:PC, which has the same text in both and is not
read again by the instruction that it is. -/
structure Twins (p q : Processor) : Prop where
  agree : AgreeExcept p.home p.architecture q.architecture
  reads : p.home ∉ p.architecture.reads p.nextWord p.regs.pc
  text : Instruction.SameText p.regs.pc p.nextWord q.nextWord

namespace Twins

theorem tty_eq (h : Twins p q) : q.tty = p.tty := congrArg Architecture.tty h.agree.rest

/-- The teletype, which is the same, does the same in both. -/
theorem poll (h : Twins p q) (hp : p.poll now = .ok polled) :
    ∃ polled', q.poll now = .ok polled' ∧ Twins polled polled' := by
  obtain ⟨tty, events, htty, rfl⟩ := poll_eq_ok_iff.mp hp
  refine ⟨_, poll_eq_ok_iff.mpr ⟨tty, events, by rw [h.tty_eq, htty], rfl⟩, ?_, ?_, h.text⟩
  · exact h.agree.map (f := fun s => { s with tty := tty }) fun _ _ => rfl
  · have hreads : Architecture.reads p.nextWord p.regs.pc { p.architecture with tty := tty } =
        p.architecture.reads p.nextWord p.regs.pc := reads_congr rfl rfl rfl
    intro hmem
    exact h.reads (hreads ▸ hmem)

theorem instruction (h : Twins p q) :
    q.architecture.instruction.1 = p.architecture.instruction.1 ∧
      AgreeExcept p.home p.architecture.instruction.2 q.architecture.instruction.2 :=
  h.agree.instruction h.text h.reads

theorem willInterrupt (h : Twins p q) :
    q.fields.willInterrupt q.tty.interruptRequest =
      p.fields.willInterrupt p.tty.interruptRequest :=
  congrArg (fun s : Architecture => s.fields.willInterrupt s.tty.interruptRequest) h.agree.rest

/-- An interrupt is taken in both, or an instruction carried out in both. -/
theorem ends (h : Twins p q) (hb : p.atBoundary = true) (hb' : q.atBoundary = true)
    (hp : p.poll now = .ok polled) :
    ∃ n ≤ 2, ∀ later : List Time, later.length = n → EndAlike p.home (now :: later) p q := by
  obtain ⟨polled', hp', htwins⟩ := h.poll hp
  have hstep := (step_of_atBoundary hb now).trans (fetch_eq_of_poll hp)
  have hstep' := (step_of_atBoundary hb' now).trans (fetch_eq_of_poll hp')
  rw [htwins.willInterrupt] at hstep'
  rw [← home_of_poll hp]
  cases hw : polled.fields.willInterrupt polled.tty.interruptRequest with
  | true =>
    rw [hw, if_pos rfl] at hstep hstep'
    refine ⟨0, by omega, ?_⟩
    intro later hlater
    obtain rfl := List.length_eq_zero_iff.mp hlater
    refine ⟨.proceed, polled.interrupt, polled'.interrupt, .last hstep rfl, .last hstep' rfl, ?_⟩
    rw [architecture_interrupt, architecture_interrupt]
    exact htwins.agree.interrupt
  | false =>
    rw [hw, if_neg Bool.false_ne_true] at hstep hstep'
    have hcycles := cycles_of_sameText htwins.text
    have hbounds := cycles_bounds polled.nextWord
    refine ⟨cycles polled.nextWord - 1, by omega, ?_⟩
    intro later hlater
    have hperforms : Performs (now :: later) p polled.architecture :=
      performs_of_fetch hstep (by omega)
    have hperforms' : Performs (now :: later) q polled'.architecture :=
      performs_of_fetch hstep' (by omega)
    obtain ⟨p', hcomplete, harch⟩ := hperforms
    obtain ⟨q', hcomplete', harch'⟩ := hperforms'
    obtain ⟨hsame, hagree⟩ := htwins.instruction
    rw [hsame] at hcomplete'
    refine ⟨_, p', q', hcomplete, hcomplete', ?_⟩
    rw [harch, harch']
    exact hagree

theorem completeAlike (h : Twins p q) (hb : p.atBoundary = true) (hb' : q.atBoundary = true) :
    CompleteAlike p.home p q where
  fails now f hf := by
    have hfails (r : Processor) (hr : r.atBoundary = true) (htty : r.tty.poll now = .error f) :
        r.step now = .error f := by
      rw [step_of_atBoundary hr]
      unfold fetch Processor.poll
      rw [htty]
    exact ⟨hfails p hb hf, hfails q hb' (by rw [h.tty_eq, hf])⟩
  ends now tty events htty := h.ends hb hb' (poll_eq_ok_iff.mpr ⟨tty, events, htty, rfl⟩)
  forth times o p' := by
    refine matched hb fun now polled hp => ?_
    obtain ⟨n, -, hall⟩ := h.ends hb hb' hp
    exact ⟨n, hall⟩
  back times o q' hq := by
    have hends (now : Time) (polled : Processor) (hpoll : q.poll now = .ok polled) :
        ∃ n, ∀ later : List Time, later.length = n → EndAlike p.home (now :: later) q p := by
      obtain ⟨tty, events, htty, -⟩ := poll_eq_ok_iff.mp hpoll
      rw [h.tty_eq] at htty
      obtain ⟨n, -, hall⟩ := h.ends hb hb' (poll_eq_ok_iff.mpr ⟨tty, events, htty, rfl⟩)
      exact ⟨n, fun later hlater => (hall later hlater).symm⟩
    obtain ⟨p', hp, hagree⟩ := matched hb' hends hq
    exact ⟨p', hp, hagree.symm⟩

end Twins

end Alike

end Processor

namespace Instruction

/-- Words with the same text do the same, where they do not read themselves; and the transfers shown
by number are those that the machine ignores. -/
theorem disassembly_faithful :
    (∀ p q : Processor, p.atBoundary = true → q.atBoundary = true →
        Architecture.AgreeExcept p.home p.architecture q.architecture →
        disassemble p.nextWord p.regs.pc = disassemble q.nextWord p.regs.pc →
        p.home ∉ p.architecture.reads p.nextWord p.regs.pc →
        Processor.CompleteAlike p.home p q) ∧
      ∀ word home : Word, word.toNat / 0o1000 = 6 →
        (disassemble word home = "IOT " ++ Octal.word word ↔ Ignored word) := by
  refine ⟨?_, ?_⟩
  · intro p q hb hb' hagree htext hreads
    have htwins : Processor.Twins p q := ⟨hagree, hreads, sameText_of_eq htext.symm⟩
    exact htwins.completeAlike hb hb'
  · intro word home hdigit
    rw [raw_iff (decode_iot hdigit), ignored_iff (decode_iot hdigit)]

/-- TAD 0010 from location 0, with the bit for its page and without it; and 6000, which no device
knows. -/
theorem disassembly_faithful_page_zero :
    let start (word : Word) : Processor :=
      .powerUp false ((Core.blank 1).write .zero word) (.powerUp 10 .unconnected .unconnected)
    let p := start 0o1010
    let q := start 0o1210
    (p.atBoundary = true ∧ q.atBoundary = true ∧
        Architecture.AgreeExcept p.home p.architecture q.architecture ∧
        disassemble p.nextWord p.regs.pc = disassemble q.nextWord p.regs.pc ∧
        p.home ∉ p.architecture.reads p.nextWord p.regs.pc ∧ p.nextWord ≠ q.nextWord ∧
        Processor.CompleteAlike p.home p q) ∧
      (0o6000 : Word).toNat / 0o1000 = 6 ∧
      (disassemble 0o6000 0 = "IOT " ++ Octal.word (0o6000 : Word) ↔ Ignored 0o6000) := by
  intro start p q
  have hword (word : Word) : (start word).nextWord = word := by
    have hpeek := Core.peek_write (Core.blank 1) .zero .zero word
    rw [if_pos ⟨rfl, rfl⟩] at hpeek
    exact hpeek
  have hagree : Architecture.AgreeExcept p.home p.architecture q.architecture := by
    refine ⟨rfl, ?_⟩
    intro b hb
    have hpeek (word : Word) :
        ((Core.blank 1).write .zero word).peek b = (Core.blank 1).peek b := by
      rw [Core.peek_write, if_neg fun h => hb h.1]
    exact (hpeek 0o1210).trans (hpeek 0o1010).symm
  have htext : disassemble p.nextWord p.regs.pc = disassemble q.nextWord p.regs.pc := by
    rw [hword, hword]
    decide
  have hreads : p.home ∉ p.architecture.reads p.nextWord p.regs.pc := by
    rw [hword]
    decide
  have hne : p.nextWord ≠ q.nextWord := by
    rw [hword, hword]
    decide
  obtain ⟨hsame, hraw⟩ := disassembly_faithful
  exact ⟨⟨rfl, rfl, hagree, htext, hreads, hne, hsame p q rfl rfl hagree htext hreads⟩, rfl,
    hraw 0o6000 0 rfl⟩

end Instruction

end Pdp8
