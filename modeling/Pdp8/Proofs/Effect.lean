import Pdp8.Proofs.Boundary
import Pdp8.Proofs.LinkAc
import Pdp8.Proofs.Memory

/-!
# Pdp8.Proofs.Effect — what each part of a step does to the architecture

One lemma for each operation of the processor: seen through `Processor.architecture` it is an
operation of `Architecture`, or nothing at all.  Reads, events and the panel's registers are
invisible to a program.
-/

namespace Pdp8.Processor

variable (p : Processor)

/-! ## Registers and core -/

theorem lac_architecture : p.architecture.lac = p.linkAc.toBits := rfl

theorem ac_architecture : p.architecture.ac = p.regs.ac := p.linkAc.setWidth_toBits

@[simp] theorem architecture_reportTrace (event : Event) :
    (p.reportTrace event).architecture = p.architecture := by
  unfold reportTrace
  split <;> rfl

@[simp] theorem architecture_skip : p.skip.architecture = p.architecture.skip := rfl

@[simp] theorem architecture_read (a : Address) : (p.read a).architecture = p.architecture := rfl

@[simp] theorem architecture_jump (target : Word) :
    (p.jump target).architecture = p.architecture.goTo target := rfl

@[simp] theorem architecture_write (a : Address) (word : Word) :
    (p.write a word).architecture = p.architecture.store a word := by
  have hmemory : (p.core.write a word).peek =
      if a.field.toNat < p.core.fieldCount then Function.update p.core.peek a word
      else p.core.peek := by
    by_cases hf : a.field.toNat < p.core.fieldCount
    · rw [if_pos hf]
      exact Core.peek_write_of_fitted (decide_eq_true hf) word
    · rw [if_neg hf]
      exact Core.peek_write_of_not_fitted (decide_eq_false hf) word
  unfold write refer architecture Architecture.store
  simp only [Core.fieldCount_write, hmemory]

/-! ## Transfers -/

theorem architecture_respond (code : Word) (response : IotResponse) :
    (p.respond code response).architecture =
      if response = .skip then p.architecture.skip else p.architecture := by
  cases response <;> rfl

/-- OR a field into bits 5 to 3 of AC. -/
theorem cons_or_field (link : Bool) (ac : Word) (f : FieldNumber) :
    BitVec.cons link (ac ||| f.toBits5To3) = BitVec.cons link ac ||| f.setWidth 13 <<< 3 := by
  rw [shiftLeft_eq_setWidth, cons_or]

/-- The memory extension never asks for a skip. -/
theorem fst_iot_ne_skip (e : Extension) (code ac : Word) : (e.iot code ac).1 ≠ .skip := by
  unfold Extension.iot
  cases ExtensionCommand.ofCode? code
  · exact IotResponse.noConfusion
  · exact IotResponse.noConfusion

/-- The memory extension does what the digits of a code say. -/
theorem architecture_transferFields {code : Word} (h : code &&& 0o7700 = 0o6200) :
    { p with
        regs.ac := (p.fields.iot code p.regs.ac).2.1
        fields := (p.fields.iot code p.regs.ac).2.2 }.architecture =
      p.architecture.transferFields code := by
  have hn : code.extractLsb' 3 3 = code.fieldBits := rfl
  have hk : code.toNat % 8 < 8 := Nat.mod_lt _ (by omega)
  have hlt := code.fieldBits.isLt
  unfold Extension.iot ExtensionCommand.ofCode? Architecture.transferFields
  simp only [h, if_true, Instruction.toNat_and_seven, hn]
  generalize code.fieldBits = n at hlt
  generalize code.toNat % 8 = k at hk
  obtain rfl | rfl | rfl | rfl | rfl | hk' :
      k = 0 ∨ k = 1 ∨ k = 2 ∨ k = 3 ∨ k = 4 ∨ 5 ≤ k := by omega
  · rfl
  · rfl
  · rfl
  · rfl
  -- The four fields that can be read back, or restored.
  · generalize n.toNat = m at hlt
    obtain rfl | rfl | rfl | rfl | rfl | hm :
        m = 0 ∨ m = 1 ∨ m = 2 ∨ m = 3 ∨ m = 4 ∨ 5 ≤ m := by omega
    · rfl
    · simp only [Extension.perform, architecture, cons_or_field]
    · simp only [Extension.perform, architecture, cons_or_field]
    · simp only [Extension.perform, architecture, cons_or_field,
        cons_or_setWidth _ _ (show 3 ≤ 12 by omega)]
    · rfl
    · obtain rfl | rfl | rfl : m = 5 ∨ m = 6 ∨ m = 7 := by omega
      all_goals rfl
  · obtain rfl | rfl | rfl : k = 5 ∨ k = 6 ∨ k = 7 := by omega
    all_goals rfl

/-- A code that is not the teletype's does nothing. -/
theorem transferTeletype_of_none {code : Word} (h : TeletypeCommand.ofCode? code = none)
    (s : Architecture) : s.transferTeletype code = s := by
  unfold TeletypeCommand.ofCode? at h
  unfold Architecture.transferTeletype
  split
  case h_11 => rfl
  all_goals
    rename_i hcode
    rw [hcode] at h
    cases h

/-- The teletype does what its code says. -/
theorem architecture_transferTeletype (code : Word) :
    (respond code (p.tty.iot code p.regs.ac).1
        { p with
          regs.ac := (p.tty.iot code p.regs.ac).2.1
          tty := (p.tty.iot code p.regs.ac).2.2 }).architecture =
      p.architecture.transferTeletype code := by
  have hskip (flag : Bool) : (p.respond code (.skipIf flag)).architecture =
      if flag then p.architecture.skip else p.architecture := by
    rw [architecture_respond]
    cases flag <;> rfl
  -- What the transfers do with AC, and with L.AC.
  have hclear := (clear_ac p.regs.link p.regs.ac).symm
  have hread := cons_or_setWidth p.regs.link p.regs.ac (show 8 ≤ 12 by omega) p.tty.keyboardChar
  have hload : BitVec.cons p.regs.link (p.tty.keyboardChar.setWidth 12) =
      (BitVec.cons p.regs.link p.regs.ac &&& 0o10000) ||| p.tty.keyboardChar.setWidth 13 := by
    rw [clear_ac, ← cons_or_setWidth _ _ (by omega)]
    simp
  have hlow := (p.linkAc.getLsbD_toBits (show 0 < 12 by omega)).symm
  have hprint := (p.linkAc.setWidth_toBits_of_le (show 8 ≤ 12 by omega)).symm
  unfold Teletype.iot
  cases h : TeletypeCommand.ofCode? code with
  | none => exact (transferTeletype_of_none h _).symm
  | some c =>
    obtain rfl := TeletypeCommand.eq_code h
    cases c with
    | ksf => exact hskip p.tty.keyboardFlag
    | kcc =>
      exact congrArg (fun lac => { p.architecture with lac := lac, tty.keyboardFlag := false })
        hclear
    | krs => exact congrArg (fun lac => { p.architecture with lac := lac }) hread
    | kie =>
      exact congrArg (fun bit => { p.architecture with tty.interruptEnable := bit }) hlow
    | krb =>
      exact congrArg (fun lac => { p.architecture with lac := lac, tty.keyboardFlag := false })
        hload
    | tsf => exact hskip p.tty.printerFlag
    | tcf => rfl
    | tpc =>
      exact congrArg
        (fun char => { p.architecture with tty.printerChar := char, tty.printerFull := true })
        hprint
    | tsk => exact hskip p.tty.interruptRequest
    | tls =>
      exact congrArg
        (fun char =>
          { p.architecture with
            tty.printerFlag := false
            tty.printerChar := char
            tty.printerFull := true })
        hprint

/-- A transfer does what its code says. -/
theorem architecture_transfer (code : Word) :
    (p.transfer code).architecture = p.architecture.transfer code := by
  unfold transfer Architecture.transfer
  by_cases hion : code = 0o6001
  · rw [if_pos hion, if_pos hion]
    rfl
  rw [if_neg hion, if_neg hion]
  by_cases hiof : code = 0o6002
  · rw [if_pos hiof, if_pos hiof]
    rfl
  rw [if_neg hiof, if_neg hiof]
  by_cases hext : code &&& 0o7700 = 0o6200
  · rw [if_pos hext, if_pos ((Instruction.and_mask_eq_iff code).mp hext),
      ← p.architecture_transferFields hext]
    exact (architecture_respond _ _ _).trans (if_neg (fst_iot_ne_skip _ _ _))
  · rw [if_neg hext, if_neg (fun h => hext ((Instruction.and_mask_eq_iff code).mpr h))]
    exact p.architecture_transferTeletype code

/-! ## Operate instructions -/

theorem architecture_setLinkAc (r : LinkAc) :
    (p.setLinkAc r).architecture = { p.architecture with lac := r.toBits } := rfl

theorem architecture_operate1 {word : Word} {g : Group1} (h : Operate.ofWord word = .group1 g) :
    (p.operate1 g).architecture =
      { p.architecture with lac := Architecture.operate1 word p.architecture.lac } := by
  have hreport : (p.operate1 g).architecture = (p.setLinkAc (g.apply p.linkAc)).architecture := by
    unfold operate1
    split <;> rfl
  rw [hreport, architecture_setLinkAc, toBits_apply h, lac_architecture]

/-- A group 2 instruction does what its word says, and halts if it has HLT. -/
theorem architecture_operate2 {word : Word} {g : Group2} (h : Operate.ofWord word = .group2 g) :
    ((p.operate2 g).1, (p.operate2 g).2.architecture) = p.architecture.operate word := by
  obtain ⟨h8, h0, hg⟩ := bits_of_group2 h
  have hhlt : word.getLsbD 1 = g.hlt := by rw [hg]
  have hac (q : Processor) : { q with regs.ac := g.acAfter q.regs.sr q.regs.ac }.architecture =
      { q.architecture with
        lac := Architecture.operate2 word q.regs.sr q.linkAc.toBits } := by
    rw [← cons_acAfter h q.linkAc q.regs.sr]
    rfl
  unfold operate2 Architecture.operate
  rw [lac_architecture, ← skips_eq h p.linkAc, h8, h0, hhlt]
  cases g.skips p.linkAc <;> cases g.hlt
  · exact congrArg (Prod.mk _) (hac p)
  · exact congrArg (Prod.mk _) (hac p)
  · exact congrArg (Prod.mk _) (hac p.skip)
  · exact congrArg (Prod.mk _) (hac p.skip)

/-- An operate instruction does what its word says. -/
theorem architecture_operate (word : Word) :
    ((p.operate (.ofWord word)).1, (p.operate (.ofWord word)).2.architecture) =
      p.architecture.operate word := by
  cases h : Operate.ofWord word with
  | group1 g =>
    have h8 := (bits_of_group1 h).1
    unfold Architecture.operate
    rw [h8]
    exact congrArg (Prod.mk _) (p.architecture_operate1 h)
  | group2 g => exact p.architecture_operate2 h
  | undefined w =>
    obtain ⟨h8, h0, -⟩ := bits_of_undefined h
    unfold Architecture.operate
    rw [h8, h0]
    rfl

/-! ## Operands -/

/-- The location that an operand names is its page with its offset. -/
theorem resolve_ofWord (word home : Word) :
    (Operand.ofWord word).resolve home = Architecture.named word home := by
  have hpage (i : Nat) (hi : i < 12) : (0o7600 : Word).getLsbD i = decide (7 ≤ i) := by
    revert hi i
    decide
  unfold Operand.resolve Operand.ofWord Architecture.named
  apply BitVec.eq_of_getLsbD_eq
  intro i hi
  cases word.getLsbD 7 <;>
    simp only [if_true, if_false, Bool.false_eq_true, BitVec.getLsbD_or, BitVec.getLsbD_and,
      hpage i hi, BitVec.getLsbD_append, BitVec.getLsbD_setWidth, BitVec.getLsbD_extractLsb',
      BitVec.getLsbD_zero] <;>
    by_cases h : i < 7
  · simp [h, hi]
  · simp [h]
  · simp [h, hi, show ¬ 7 ≤ i by omega]
  · simp [h, hi, show 7 ≤ i by omega, show i - 7 < 5 by omega, show 7 + (i - 7) = i by omega]

/-- The pointer is left in MB. -/
theorem loadPointer_follow (a : Address) :
    ((p.loadPointer a).regs.mb, (p.loadPointer a).architecture) = p.architecture.follow a := by
  unfold loadPointer Architecture.follow Address.isAutoIndex
  simp only [Bool.and_eq_true, decide_eq_true_eq]
  by_cases h : 0o10 ≤ a.location.toNat ∧ a.location.toNat ≤ 0o17
  · rw [if_pos h, if_pos h, architecture_write, architecture_read]
    rfl
  · rw [if_neg h, if_neg h]
    rfl

/-! ## Memory references -/

theorem architecture_isz (a : Address) : (p.isz a).architecture = p.architecture.isz a := by
  have hmb : ((p.read a).write a (Word.successor (p.read a).regs.mb)).regs.mb =
      p.core.peek a + 1 := rfl
  have hmemory : p.architecture.memory a = p.core.peek a := rfl
  unfold isz Architecture.isz
  dsimp only
  rw [hmb, hmemory]
  split
  · rw [architecture_skip, architecture_write]
    rfl
  · rw [architecture_write]
    rfl

theorem architecture_dca (a : Address) :
    { p.write a p.regs.ac with regs.ac := 0 }.architecture = p.architecture.dca a := by
  unfold Architecture.dca
  rw [p.ac_architecture, ← architecture_write, p.lac_architecture, p.linkAc.toBits_eq, clear_ac]
  rfl

theorem architecture_jms (target : Word) :
    (p.jms target).architecture = p.architecture.jms target := by
  have h := ({ p with fields := p.fields.jump } : Processor).architecture_write
    ⟨p.fields.fieldAfterJump, target⟩ p.regs.pc
  exact congrArg (fun s : Architecture => { s with pc := target + 1 }) h

/-- A memory reference does what its opcode says. -/
theorem architecture_refers (op : MemoryOp) (a : Address) :
    (refers op a p).architecture = p.architecture.refer op.digit a := by
  cases op with
  | and =>
    have h := cons_and p.regs.link p.regs.ac (p.core.peek a)
    exact congrArg (fun lac => { p.architecture with lac := lac }) h.symm
  | tad =>
    have h := p.linkAc.toBits_add (p.core.peek a)
    exact congrArg (fun lac => { p.architecture with lac := lac }) h
  | isz => exact p.architecture_isz a
  | dca => exact p.architecture_dca a
  | jms => exact p.architecture_jms a.location

/-! ## The fetch cycle -/

/-- The fetch of a word advances PC and lets ION take effect; that of a jump lets interrupts in
again. -/
theorem architecture_loadInstruction :
    p.loadInstruction.architecture =
      { p.architecture.advance with
        fields.heldOff :=
          if (Instruction.decode p.nextWord).isJumpClass then false else p.fields.heldOff } := by
  have hfields :
      (if (Instruction.decode p.nextWord).isJumpClass then p.fields.latch.release
        else p.fields.latch) =
      { p.architecture.advance.fields with
        heldOff :=
          if (Instruction.decode p.nextWord).isJumpClass then false else p.fields.heldOff } := by
    split <;> rfl
  unfold loadInstruction
  rw [architecture_reportTrace]
  exact congrArg (fun fields => { p.architecture.advance with fields := fields }) hfields

/-- An interrupt is visible as such. -/
theorem architecture_interrupt : p.interrupt.architecture = p.architecture.interrupt := by
  have hreported (q : Processor) (h : q.architecture = p.architecture) :
      ({ write .zero q.regs.pc { q with fields := q.fields.acknowledge, cycle := .execute } with
          regs.pc := 1 } : Processor).architecture = p.architecture.interrupt := by
    rw [← h]
    exact congrArg (fun s : Architecture => { s with pc := 1 }) (architecture_write _ _ _)
  exact hreported _ (architecture_reportTrace _ _)

end Pdp8.Processor
