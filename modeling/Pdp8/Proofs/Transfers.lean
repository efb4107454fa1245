import Pdp8.Instruction.Mnemonic
import Pdp8.Proofs.Effect

/-!
# Pdp8.Proofs.Transfers — the transfers that mean something

Of the 512 input-output transfers the machine carries out forty: two of the processor itself, ten of
the teletype, and 28 of the memory extension.  These are the ones that have names (`raw_iff`), and
the ones that have an effect (`ignored_iff`): every other code is reported and ignored, and each of
the forty changes something that a program sees, in some state.
-/

namespace Pdp8

/-! ## Codes -/

/-- The code of a transfer of the memory extension. -/
def ExtensionCommand.code : ExtensionCommand → Word
  | .cdf n => 0o6201 + n.toBits5To3
  | .cif n => 0o6202 + n.toBits5To3
  | .cdfCif n => 0o6203 + n.toBits5To3
  | .rdf => 0o6214
  | .rif => 0o6224
  | .rib => 0o6234
  | .rmf => 0o6244

/-- A transfer that the machine carries out. -/
inductive Transfer
  | ion
  | iof
  | extension (c : ExtensionCommand)
  | teletype (c : TeletypeCommand)
  deriving DecidableEq, Repr

namespace Transfer

/-- The code of a transfer. -/
def code : Transfer → Word
  | .ion => 0o6001
  | .iof => 0o6002
  | .extension c => c.code
  | .teletype c => c.code

/-- All transfers. -/
def all : List Transfer :=
  [.ion, .iof, .teletype .ksf, .teletype .kcc, .teletype .krs, .teletype .kie, .teletype .krb,
    .teletype .tsf, .teletype .tcf, .teletype .tpc, .teletype .tsk, .teletype .tls,
    .extension .rdf, .extension .rif, .extension .rib, .extension .rmf] ++
  ([0, 1, 2, 3, 4, 5, 6, 7] : List FieldNumber).flatMap fun n =>
    [.extension (.cdf n), .extension (.cif n), .extension (.cdfCif n)]

theorem mem_all (c : Transfer) : c ∈ all := by
  have hfield : ∀ n : FieldNumber, .extension (.cdf n) ∈ all ∧ .extension (.cif n) ∈ all ∧
      .extension (.cdfCif n) ∈ all := by decide
  rcases c with _ | _ | c | c
  · decide
  · decide
  · cases c with
    | cdf n => exact (hfield n).1
    | cif n => exact (hfield n).2.1
    | cdfCif n => exact (hfield n).2.2
    | rdf => decide
    | rif => decide
    | rib => decide
    | rmf => decide
  · cases c <;> decide

example : all.length = 40 := by decide

end Transfer

/-- The code of the memory extension with given third and last digits. -/
theorem eq_of_digits {code base : Word} {k : Nat} (h62 : code.toNat / 64 = 0o62)
    (hk : code.toNat % 8 = k) (hbase : base.toNat = 0o6200 + k) :
    code = base + code.fieldBits.toBits5To3 := by
  apply BitVec.eq_of_toNat_eq
  rw [BitVec.toNat_add, FieldNumber.toNat_toBits5To3, Word.toNat_fieldBits, hbase]
  have hlt := code.isLt
  omega

theorem ExtensionCommand.eq_code {code : Word} {c : ExtensionCommand} (h : ofCode? code = some c) :
    code = c.code := by
  unfold ofCode? at h
  split at h
  case isFalse => cases h
  case isTrue hmask =>
    have h62 := (Instruction.and_mask_eq_iff code).mp hmask
    rw [Instruction.toNat_and_seven] at h
    dsimp only at h
    split at h
    case h_1 hk => cases h; exact eq_of_digits h62 hk rfl
    case h_2 hk => cases h; exact eq_of_digits h62 hk rfl
    case h_3 hk => cases h; exact eq_of_digits h62 hk rfl
    case h_4 hk =>
      have hread {m : Nat} (hm : code.fieldBits.toNat = m) :
          code = 0o6204 + FieldNumber.toBits5To3 (BitVec.ofNat 3 m) := by
        rw [← hm, BitVec.ofNat_toNat, BitVec.setWidth_eq]
        exact eq_of_digits h62 hk rfl
      split at h
      case h_1 hm => cases h; exact hread hm
      case h_2 hm => cases h; exact hread hm
      case h_3 hm => cases h; exact hread hm
      case h_4 hm => cases h; exact hread hm
      case h_5 => cases h
    case h_5 => cases h

/-! ## Names -/

namespace Transfer

/-- The name of a transfer; a field is named by its number shifted into place. -/
def name : Transfer → String
  | .ion => "ION"
  | .iof => "IOF"
  | .teletype .ksf => "KSF"
  | .teletype .kcc => "KCC"
  | .teletype .krs => "KRS"
  | .teletype .kie => "KIE"
  | .teletype .krb => "KRB"
  | .teletype .tsf => "TSF"
  | .teletype .tcf => "TCF"
  | .teletype .tpc => "TPC"
  | .teletype .tsk => "TSK"
  | .teletype .tls => "TLS"
  | .extension (.cdf n) => "CDF" ++ (" " ++ Octal.text n.toBits5To3.toNat)
  | .extension (.cif n) => "CIF" ++ (" " ++ Octal.text n.toBits5To3.toNat)
  | .extension (.cdfCif n) => "CDF CIF" ++ (" " ++ Octal.text n.toBits5To3.toNat)
  | .extension .rdf => "RDF"
  | .extension .rif => "RIF"
  | .extension .rib => "RIB"
  | .extension .rmf => "RMF"

theorem iotMnemonic?_code (c : Transfer) : iotMnemonic? c.code = some c.name := by
  have hall : ∀ c ∈ all, iotMnemonic? c.code = some c.name := by decide
  exact hall c c.mem_all

/-- The last digit of a code, by its bits. -/
theorem and_eq_of_digit (code mask : Word) (h : 0o7 &&& mask = mask) :
    code &&& mask = BitVec.ofNat 12 (code.toNat % 8) &&& mask := by
  rw [← Instruction.toNat_and_seven, BitVec.ofNat_toNat, BitVec.setWidth_eq, BitVec.and_assoc, h]

/-- Only transfers have names. -/
theorem exists_of_iotMnemonic? {code : Word} {name : String} (h : iotMnemonic? code = some name) :
    ∃ c : Transfer, code = c.code := by
  unfold iotMnemonic? at h
  split at h
  case h_1 hcode => exact ⟨.ion, BitVec.eq_of_toNat_eq hcode⟩
  case h_2 hcode => exact ⟨.iof, BitVec.eq_of_toNat_eq hcode⟩
  case h_3 hcode => exact ⟨.teletype .ksf, BitVec.eq_of_toNat_eq hcode⟩
  case h_4 hcode => exact ⟨.teletype .kcc, BitVec.eq_of_toNat_eq hcode⟩
  case h_5 hcode => exact ⟨.teletype .krs, BitVec.eq_of_toNat_eq hcode⟩
  case h_6 hcode => exact ⟨.teletype .kie, BitVec.eq_of_toNat_eq hcode⟩
  case h_7 hcode => exact ⟨.teletype .krb, BitVec.eq_of_toNat_eq hcode⟩
  case h_8 hcode => exact ⟨.teletype .tsf, BitVec.eq_of_toNat_eq hcode⟩
  case h_9 hcode => exact ⟨.teletype .tcf, BitVec.eq_of_toNat_eq hcode⟩
  case h_10 hcode => exact ⟨.teletype .tpc, BitVec.eq_of_toNat_eq hcode⟩
  case h_11 hcode => exact ⟨.teletype .tsk, BitVec.eq_of_toNat_eq hcode⟩
  case h_12 hcode => exact ⟨.teletype .tls, BitVec.eq_of_toNat_eq hcode⟩
  case h_13 hcode => exact ⟨.extension .rdf, BitVec.eq_of_toNat_eq hcode⟩
  case h_14 hcode => exact ⟨.extension .rif, BitVec.eq_of_toNat_eq hcode⟩
  case h_15 hcode => exact ⟨.extension .rib, BitVec.eq_of_toNat_eq hcode⟩
  case h_16 hcode => exact ⟨.extension .rmf, BitVec.eq_of_toNat_eq hcode⟩
  case h_17 =>
    split at h
    case isFalse => cases h
    case isTrue hbits =>
      obtain ⟨hmask, hfour, hthree⟩ := hbits
      have h62 := (Instruction.and_mask_eq_iff code).mp hmask
      rw [and_eq_of_digit code _ rfl] at hfour hthree
      have hlt : code.toNat % 8 < 8 := Nat.mod_lt _ (by omega)
      generalize hk : code.toNat % 8 = k at hfour hthree hlt
      match k, hlt with
      | 0, _ => exact absurd rfl hthree
      | 1, _ => exact ⟨.extension (.cdf code.fieldBits), eq_of_digits h62 hk rfl⟩
      | 2, _ => exact ⟨.extension (.cif code.fieldBits), eq_of_digits h62 hk rfl⟩
      | 3, _ => exact ⟨.extension (.cdfCif code.fieldBits), eq_of_digits h62 hk rfl⟩
      | 4, _ => exact absurd hfour (by decide)
      | 5, _ => exact absurd hfour (by decide)
      | 6, _ => exact absurd hfour (by decide)
      | 7, _ => exact absurd hfour (by decide)

/-- The names are those of the transfers. -/
theorem iotMnemonic?_eq_none_iff {code : Word} :
    iotMnemonic? code = none ↔ ∀ c : Transfer, code ≠ c.code := by
  constructor
  · rintro h c rfl
    rw [iotMnemonic?_code] at h
    cases h
  · intro h
    cases hname : iotMnemonic? code with
    | none => rfl
    | some name =>
      obtain ⟨c, hc⟩ := exists_of_iotMnemonic? hname
      exact absurd hc (h c)

/-- No name is the raw form of a word. -/
theorem name_ne_raw (c : Transfer) (number : String) : c.name ≠ "IOT " ++ number := by
  have hall : ∀ c ∈ all, c.name.toList.take 3 ≠ ['I', 'O', 'T'] := by decide
  have hhead := hall c c.mem_all
  intro h
  rw [h, String.toList_append] at hhead
  exact hhead rfl

end Transfer

/-! ## Effects -/

namespace Processor

/-- Every other code is reported, and ignored. -/
theorem transfer_of_ne {code : Word} (h : ∀ c : Transfer, code ≠ c.code) (p : Processor) :
    p.transfer code = p.report [.ignoredIot code ⟨p.fields.instructionField, p.fetchedFrom⟩] := by
  have hext : ExtensionCommand.ofCode? code = none :=
    Option.eq_none_iff_forall_ne_some.mpr fun c hc => h (.extension c) (c.eq_code hc)
  have htty : TeletypeCommand.ofCode? code = none :=
    Option.eq_none_iff_forall_ne_some.mpr fun c hc => h (.teletype c) (c.eq_code hc)
  have hion : code ≠ 0o6001 := h .ion
  have hiof : code ≠ 0o6002 := h .iof
  unfold transfer Extension.iot Teletype.iot
  rw [if_neg hion, if_neg hiof, hext, htty]
  split <;> rfl

end Processor

namespace Transfer

/-- A state in which a transfer is about to be fetched, and in which something is to be seen of it:
the flags of the teletype are up, and its buffers and the field registers hold something. -/
def telling (c : Transfer) : Processor where
  regs := .zero
  fields :=
    { dataField := c.code.fieldBits + 1
      instructionField := 7
      fieldAfterJump := 7
      savedDataField := 7
      savedInstructionField := 7
      heldOff := false
      enabled := false
      enabling := c = .iof
      requested := false }
  cycle := .idle
  current := .decode 0
  fetchedFrom := 0
  traced := false
  core := (Core.blank 8).write ⟨7, 0⟩ c.code
  tty :=
    { Teletype.powerUp 10 .unconnected .unconnected with
      keyboardFlag := true
      keyboardChar := 0o377
      printerFlag := true
      interruptRequest := true }
  log := []

variable (c : Transfer)

theorem poll_telling : c.telling.poll 0 = .ok c.telling := rfl

theorem nextWord_telling : c.telling.nextWord = c.code := by
  have hpeek := Core.peek_write (Core.blank 8) ⟨7, 0⟩ ⟨7, 0⟩ c.code
  rw [if_pos ⟨rfl, rfl⟩] at hpeek
  exact hpeek

/-- What is to be seen of the registers and the teletype. -/
def glimpse (s : Architecture) : BitVec 13 × Word × Extension × TeletypeStatus :=
  (s.lac, s.pc, s.fields, s.tty.status)

theorem glimpse_telling :
    glimpse (c.telling.architecture.advance.transfer c.code) ≠
      glimpse c.telling.architecture.advance := by
  have hall : ∀ c ∈ all, glimpse (c.telling.architecture.advance.transfer c.code) ≠
      glimpse c.telling.architecture.advance := by decide
  exact hall c c.mem_all

end Transfer

namespace Instruction

/-- The word is ignored: a step that fetches it comes to the fetch alone, and reports that no device
knows the word. -/
def Ignored (word : Word) : Prop :=
  ∀ (p polled : Processor) (now : Time), p.atBoundary = true → p.poll now = .ok polled →
    ¬ p.Acknowledges now → p.nextWord = word →
    p.step now = .ok (.proceed, polled.loadInstruction.report [.ignoredIot word p.home])

/-- A transfer without a name is shown as such. -/
theorem raw_iff {word : Word} (hdec : decode word = .iot word) (home : Word) :
    disassemble word home = "IOT " ++ Octal.word word ↔ ∀ c : Transfer, word ≠ c.code := by
  unfold disassemble
  rw [hdec]
  constructor
  · rintro h c rfl
    dsimp only at h
    rw [c.iotMnemonic?_code, Option.getD_some] at h
    exact c.name_ne_raw _ h
  · intro h
    dsimp only
    rw [Transfer.iotMnemonic?_eq_none_iff.mpr h, Option.getD_none]

end Instruction

namespace Processor

variable {p polled : Processor} {now : Time} {word : Word}

/-- A fetch of a transfer carries it out. -/
theorem begin_of_iot (hdec : Instruction.decode p.nextWord = .iot word) :
    p.loadInstruction.beginInstruction = (.proceed, p.loadInstruction.transfer word) := by
  unfold beginInstruction
  rw [p.current_loadInstruction, hdec]

theorem architecture_load_of_iot (hdec : Instruction.decode p.nextWord = .iot word) :
    p.loadInstruction.architecture = p.architecture.advance := by
  rw [architecture_loadInstruction, hdec]
  rfl

theorem place_loadInstruction :
    (⟨p.loadInstruction.fields.instructionField, p.loadInstruction.fetchedFrom⟩ : Address) =
      p.home := by
  have hfields := congrArg (fun s => s.fields.instructionField) p.architecture_loadInstruction
  have hfield : p.loadInstruction.fields.instructionField = p.fields.instructionField := hfields
  rw [hfield, fetchedFrom_loadInstruction]
  rfl

end Processor

namespace Instruction

open Processor in
/-- The transfers that are ignored are those that no part of the machine carries out. -/
theorem ignored_iff {word : Word} (hdec : decode word = .iot word) :
    Ignored word ↔ ∀ c : Transfer, word ≠ c.code := by
  constructor
  · rintro h c rfl
    have hcurrent : decode c.telling.nextWord = .iot c.code := by rw [c.nextWord_telling, hdec]
    have hload := architecture_load_of_iot hcurrent
    have hno : ¬ c.telling.Acknowledges 0 := by
      rw [acknowledges_iff_of_poll rfl c.poll_telling]
      exact Bool.false_ne_true
    have hstep := step_of_not_acknowledges rfl c.poll_telling hno
    rw [h c.telling c.telling 0 rfl c.poll_telling hno c.nextWord_telling,
      begin_of_iot hcurrent] at hstep
    have hsame := congrArg (fun r => r.2.architecture) (Except.ok.inj hstep)
    dsimp only at hsame
    rw [architecture_transfer, hload] at hsame
    exact c.glimpse_telling (congrArg Transfer.glimpse (hsame.symm.trans hload))
  · intro h p polled now hb hp hno hword
    have hcurrent : decode polled.nextWord = .iot word := by rw [nextWord_of_poll hp, hword, hdec]
    rw [step_of_not_acknowledges hb hp hno, begin_of_iot hcurrent, transfer_of_ne h,
      place_loadInstruction, home_of_poll hp]

end Instruction

end Pdp8
