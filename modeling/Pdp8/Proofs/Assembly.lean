import Mathlib.Tactic.IntervalCases
import Pdp8.Proofs.LinkAc
import Pdp8.Proofs.OctalNumerals
import Pdp8.Proofs.TextParts
import Pdp8.Proofs.Transfers

/-!
# Pdp8.Proofs.Assembly — the texts of instructions read back

An assembler gives each of its symbols a value, and makes a word of a line by putting the values of
its tokens together with OR.  This gives back the word that a text was made from, whenever it is a
transfer or an operate instruction (`assemble_disassemble`); all that is lost is the group of an
instruction that does nothing, or nothing but CLA.  The text of a memory reference or jump has the
absolute location in place of the page and the offset.  What two words with the same text have in
common is collected in `SameText`.
-/

namespace Pdp8

namespace Instruction

/-- The symbols of an assembler, with their values. -/
def symbols : List (String × Word) :=
  [("AND", 0o0000), ("TAD", 0o1000), ("ISZ", 0o2000), ("DCA", 0o3000), ("JMS", 0o4000),
    ("JMP", 0o5000), ("I", 0o0400), ("IOT", 0o6000), ("ION", 0o6001), ("IOF", 0o6002),
    ("KSF", 0o6031), ("KCC", 0o6032), ("KRS", 0o6034), ("KIE", 0o6035), ("KRB", 0o6036),
    ("TSF", 0o6041), ("TCF", 0o6042), ("TPC", 0o6044), ("TSK", 0o6045), ("TLS", 0o6046),
    ("CDF", 0o6201), ("CIF", 0o6202), ("RDF", 0o6214), ("RIF", 0o6224), ("RIB", 0o6234),
    ("RMF", 0o6244), ("OPR", 0o7000), ("NOP", 0o7000), ("CLA", 0o7200), ("CLL", 0o7100),
    ("CMA", 0o7040), ("CML", 0o7020), ("RAR", 0o7010), ("RTR", 0o7012), ("RAL", 0o7004),
    ("RTL", 0o7006), ("BSW", 0o7002), ("IAC", 0o7001), ("SMA", 0o7500), ("SZA", 0o7440),
    ("SNL", 0o7420), ("SPA", 0o7510), ("SNA", 0o7450), ("SZL", 0o7430), ("SKP", 0o7410),
    ("OSR", 0o7404), ("HLT", 0o7402)]

/-- The value of a token: a number has its own, a symbol that of the table. -/
def value (token : List Char) : Word :=
  match Octal.parseWord? 12 token with
  | some n => n
  | none => ((symbols.find? fun s => s.1.toList == token).map Prod.snd).getD 0

/-- The values of some tokens put together. -/
def total (tokens : List (List Char)) : Word := tokens.foldr (fun t v => value t ||| v) 0

/-- The word that an assembler makes of a text. -/
def assemble (text : String) : Word := total (Text.tokens text.toList)

/-- The first digit of a text: that of its first token. -/
def leadDigit (text : String) : Nat :=
  (value ((Text.tokens text.toList).headD [])).toNat / 0o1000

theorem total_append (ts ts' : List (List Char)) : total (ts ++ ts') = total ts ||| total ts' := by
  induction ts with
  | nil => exact BitVec.zero_or.symm
  | cons t ts ih =>
    unfold total at ih ⊢
    rw [List.cons_append, List.foldr_cons, List.foldr_cons, ih, BitVec.or_assoc]

/-! ## Tokens -/

/-- A text that is a single token. -/
def IsToken (t : String) : Prop := Text.tokens t.toList = [t.toList]

instance (t : String) : Decidable (IsToken t) :=
  inferInstanceAs (Decidable (Text.tokens t.toList = [t.toList]))

section Tokens

variable {t : String} (h : IsToken t)
include h

theorem assemble_token : assemble t = value t.toList := by
  unfold assemble
  rw [h]
  exact BitVec.or_zero

theorem leadDigit_token : leadDigit t = (value t.toList).toNat / 0o1000 := by
  unfold leadDigit
  rw [h]
  rfl

theorem tokens_join (rest : String) :
    Text.tokens (t ++ (" " ++ rest)).toList = t.toList :: Text.tokens rest.toList := by
  have hblank : Text.isBlank ' ' = true := by decide
  have hchars : (t ++ (" " ++ rest)).toList = t.toList ++ ' ' :: rest.toList := by
    rw [String.toList_append, String.toList_append]
    rfl
  rw [hchars, Text.tokens_append hblank, h, List.singleton_append]

theorem assemble_join (rest : String) :
    assemble (t ++ (" " ++ rest)) = value t.toList ||| assemble rest := by
  unfold assemble
  rw [tokens_join h]
  rfl

theorem leadDigit_join (rest : String) :
    leadDigit (t ++ (" " ++ rest)) = (value t.toList).toNat / 0o1000 := by
  unfold leadDigit
  rw [tokens_join h]
  rfl

end Tokens

theorem tokens_intercalate {names : List String} (h : ∀ n ∈ names, IsToken n) :
    Text.tokens (" ".intercalate names).toList = names.map String.toList := by
  induction names with
  | nil => rfl
  | cons n names ih =>
    obtain ⟨hn, hnames⟩ := List.forall_mem_cons.mp h
    cases names with
    | nil =>
      rw [String.intercalate_singleton]
      exact hn
    | cons m names =>
      rw [String.intercalate_cons_cons, String.append_assoc, tokens_join hn, ih hnames]
      rfl

section Numerals

variable {t : String} {a : Word} (h : Octal.Numeral t.toList a.toNat)
include h

/-- A number in a text has its own value. -/
theorem value_of_numeral : value t.toList = a := by
  unfold value
  rw [Octal.parseWord?_eq_some_iff.mpr (.inl h)]

theorem isToken_of_numeral : IsToken t := by
  have hdigit : ∀ c ∈ ['0', '1', '2', '3', '4', '5', '6', '7'], Text.isBlank c = false :=
    Octal.forall_of_all (by decide)
  have hword : Text.tokens (t.toList ++ []) = t.toList :: Text.tokens [] :=
    Text.tokens_word_append h.nonempty (fun c hc => (h.digits c hc).elim hdigit) nofun
  rw [List.append_nil] at hword
  exact hword

theorem assemble_numeral : assemble t = a :=
  (assemble_token (isToken_of_numeral h)).trans (value_of_numeral h)

end Numerals

/-! ## Memory references -/

theorem tokens_reference {name : String} (h : IsToken name) (o : Operand) (home : Word) :
    Text.tokens (referenceText name o home).toList =
      name.toList :: ((if o.indirect then ["I".toList] else []) ++
        [(Octal.word (o.resolve home)).toList]) := by
  have hnumber := isToken_of_numeral (Octal.numeral_word (o.resolve home))
  unfold referenceText
  cases o.indirect with
  | false =>
    rw [if_neg Bool.false_ne_true, if_neg Bool.false_ne_true, String.append_assoc, tokens_join h,
      hnumber]
    rfl
  | true =>
    have hmark : " I " = " " ++ ("I" ++ " ") := by decide
    have hi : IsToken "I" := by decide
    rw [if_pos rfl, if_pos rfl, hmark, String.append_assoc, String.append_assoc,
      String.append_assoc, tokens_join h, tokens_join hi, hnumber]
    rfl

theorem leadDigit_reference {name : String} (h : IsToken name) (o : Operand) (home : Word) :
    leadDigit (referenceText name o home) = (value name.toList).toNat / 0o1000 := by
  unfold leadDigit
  rw [tokens_reference h]
  rfl

/-- The text of a reference says whether it is indirect, and what it names. -/
theorem reference_inj {name name' : String} (h : IsToken name) (h' : IsToken name')
    {o o' : Operand} {home : Word}
    (heq : referenceText name o home = referenceText name' o' home) :
    o.indirect = o'.indirect ∧ o.resolve home = o'.resolve home := by
  have htokens := congrArg (fun text => (Text.tokens text.toList).tail) heq
  rw [tokens_reference h, tokens_reference h', List.tail_cons, List.tail_cons,
    List.append_singleton_inj] at htokens
  obtain ⟨hmark, hnumber⟩ := htokens
  refine ⟨?_, Octal.word_inj.mp (String.toList_inj.mp hnumber)⟩
  revert hmark
  cases o.indirect <;> cases o'.indirect <;> simp

/-! ## Words that are shown by number -/

/-- A word contains its first digit. -/
theorem opcode_or (word : Word) : word.opcode.setWidth 12 <<< 9 ||| word = word := by
  apply BitVec.eq_of_getLsbD_eq
  intro i hi
  unfold Word.opcode
  rw [BitVec.getLsbD_or, BitVec.getLsbD_shiftLeft, BitVec.getLsbD_setWidth,
    BitVec.getLsbD_extractLsb']
  by_cases h : i < 9
  · simp [h]
  · simp [h, hi, show 9 + (i - 9) = i by omega]

theorem opcode_eq {word : Word} {d : BitVec 3} (h : word.toNat / 0o1000 = d.toNat) :
    word.opcode = d :=
  BitVec.eq_of_toNat_eq (word.toNat_opcode.trans h)

theorem assemble_raw {name : String} (hname : IsToken name) {word : Word}
    (hvalue : value name.toList = word.opcode.setWidth 12 <<< 9) :
    assemble (name ++ (" " ++ Octal.word word)) = word := by
  rw [assemble_join hname, hvalue, assemble_numeral (Octal.numeral_word word), opcode_or]

/-! ## Transfers -/

theorem digit_code (c : Transfer) : c.code.toNat / 0o1000 = 6 := by
  have hall : ∀ c ∈ Transfer.all, c.code.toNat / 0o1000 = 6 := by decide
  exact hall c c.mem_all

/-- A field in the operand of an assembler's line. -/
theorem assemble_field (n : FieldNumber) :
    assemble (Octal.text n.toBits5To3.toNat) = n.toBits5To3 :=
  assemble_numeral (Octal.numeral_text _)

/-- A symbol for a transfer. -/
theorem assemble_symbol {t : String} {c : Transfer} (h : IsToken t ∧ value t.toList = c.code) :
    assemble t = c.code ∧ leadDigit t = 6 := by
  rw [assemble_token h.1, leadDigit_token h.1, h.2]
  exact ⟨rfl, digit_code c⟩

/-- The name of a transfer gives its code. -/
theorem assemble_name (c : Transfer) : assemble c.name = c.code ∧ leadDigit c.name = 6 := by
  have hcdf : IsToken "CDF" ∧ value "CDF".toList = 0o6201 := by decide
  have hcif : IsToken "CIF" ∧ value "CIF".toList = 0o6202 := by decide
  have hboth : "CDF CIF" = "CDF" ++ (" " ++ "CIF") := by decide
  have hor : ∀ n : FieldNumber,
      0o6201 ||| n.toBits5To3 = (ExtensionCommand.cdf n).code ∧
      0o6202 ||| n.toBits5To3 = (ExtensionCommand.cif n).code ∧
      0o6201 ||| (0o6202 ||| n.toBits5To3) = (ExtensionCommand.cdfCif n).code := by decide
  rcases c with _ | _ | c | c
  · exact assemble_symbol (c := .ion) (by decide)
  · exact assemble_symbol (c := .iof) (by decide)
  · cases c with
    | cdf n =>
      unfold Transfer.name
      rw [assemble_join hcdf.1, leadDigit_join hcdf.1, hcdf.2, assemble_field]
      exact ⟨(hor n).1, rfl⟩
    | cif n =>
      unfold Transfer.name
      rw [assemble_join hcif.1, leadDigit_join hcif.1, hcif.2, assemble_field]
      exact ⟨(hor n).2.1, rfl⟩
    | cdfCif n =>
      have hname : (Transfer.extension (.cdfCif n)).name =
          "CDF CIF" ++ (" " ++ Octal.text n.toBits5To3.toNat) := rfl
      rw [hname, hboth, String.append_assoc, String.append_assoc, assemble_join hcdf.1,
        leadDigit_join hcdf.1, assemble_join hcif.1, hcdf.2, hcif.2, assemble_field]
      exact ⟨(hor n).2.2, rfl⟩
    | rdf => exact assemble_symbol (c := .extension .rdf) (by decide)
    | rif => exact assemble_symbol (c := .extension .rif) (by decide)
    | rib => exact assemble_symbol (c := .extension .rib) (by decide)
    | rmf => exact assemble_symbol (c := .extension .rmf) (by decide)
  · cases c
    all_goals exact assemble_symbol (c := .teletype _) (by decide)

end Instruction

/-! ## Micro-instructions -/

/-- The code that selects a rotation. -/
def Rotation.code : Rotation → BitVec 3
  | .none => 0
  | .byteSwap => 1
  | .left => 2
  | .leftTwice => 3
  | .right => 4
  | .rightTwice => 5
  | .conflicting code => code

theorem Rotation.code_ofCode (code : BitVec 3) : (Rotation.ofCode code).code = code := by
  revert code
  decide

/-- A word with a single bit, or none. -/
def Word.flag (place : Nat) (b : Bool) : Word := (BitVec.ofBool b).setWidth 12 <<< place

theorem Word.getLsbD_flag (place : Nat) (b : Bool) {i : Nat} (hi : i < 12) :
    (flag place b).getLsbD i = (b && decide (i = place)) := by
  unfold Word.flag
  rw [BitVec.getLsbD_shiftLeft, BitVec.getLsbD_setWidth, BitVec.getLsbD_ofBool]
  cases b with
  | false => simp
  | true =>
    by_cases h : i = place
    · simp [h]
      omega
    · simp [h]
      omega

/-- The word of a group 1 instruction. -/
def Group1.word (g : Group1) : Word :=
  0o7000 ||| Word.flag 7 g.cla ||| Word.flag 6 g.cll ||| Word.flag 5 g.cma ||| Word.flag 4 g.cml
    ||| g.rotation.code.setWidth 12 <<< 1 ||| Word.flag 0 g.iac

/-- The word of a group 2 instruction. -/
def Group2.word (g : Group2) : Word :=
  0o7400 ||| Word.flag 7 g.cla ||| Word.flag 6 g.sma ||| Word.flag 5 g.sza ||| Word.flag 4 g.snl
    ||| Word.flag 3 g.reverse ||| Word.flag 2 g.osr ||| Word.flag 1 g.hlt

namespace Instruction

section Words

variable {word : Word} (hdigit : word.toNat / 0o1000 = 7)
include hdigit

theorem top_bits :
    word.getLsbD 9 = true ∧ word.getLsbD 10 = true ∧ word.getLsbD 11 = true := by
  have hop : word.opcode = 7 := opcode_eq hdigit
  have hbit (i : Nat) (h : i < 3) : word.getLsbD (9 + i) = true := by
    have hone : word.opcode.getLsbD i = true := by
      rw [hop]
      revert h i
      decide
    simpa [Word.opcode, h] using hone
  exact ⟨hbit 0 (by omega), hbit 1 (by omega), hbit 2 (by omega)⟩

theorem word_of_group1 {g : Group1} (h : Operate.ofWord word = .group1 g) : word = g.word := by
  obtain ⟨h8, rfl⟩ := bits_of_group1 h
  have htop := top_bits hdigit
  unfold Group1.word
  rw [Rotation.code_ofCode]
  apply BitVec.eq_of_getLsbD_eq
  intro i hi
  simp only [BitVec.getLsbD_or, Word.getLsbD_flag _ _ hi, BitVec.getLsbD_shiftLeft,
    BitVec.getLsbD_setWidth, BitVec.getLsbD_extractLsb']
  interval_cases i
  all_goals simp [h8, htop, -BitVec.getLsbD_eq_getElem]

theorem word_of_group2 {g : Group2} (h : Operate.ofWord word = .group2 g) : word = g.word := by
  obtain ⟨h8, h0, rfl⟩ := bits_of_group2 h
  have htop := top_bits hdigit
  unfold Group2.word
  apply BitVec.eq_of_getLsbD_eq
  intro i hi
  simp only [BitVec.getLsbD_or, Word.getLsbD_flag _ _ hi]
  interval_cases i
  all_goals simp [h8, h0, htop, -BitVec.getLsbD_eq_getElem]

end Words

/-- The names of the micro-instructions. -/
def microNames : List String :=
  ["CLA", "CLL", "CMA", "CML", "BSW", "RAL", "RTL", "RAR", "RTR", "IAC", "SPA", "SNA", "SZL", "SKP",
    "SMA", "SZA", "SNL", "OSR", "HLT"]

/-- Their values, in the same order. -/
def microValues : List Word :=
  [0o7200, 0o7100, 0o7040, 0o7020, 0o7002, 0o7004, 0o7006, 0o7010, 0o7012, 0o7001, 0o7510, 0o7450,
    0o7430, 0o7410, 0o7500, 0o7440, 0o7420, 0o7404, 0o7402]

theorem value_microNames : microNames.map (fun name => value name.toList) = microValues := by
  decide

theorem isToken_of_mem {name : String} (h : name ∈ microNames) : IsToken name := by
  have hall : ∀ n ∈ microNames, IsToken n := by decide
  exact hall name h

theorem value_mem {name : String} (h : name ∈ microNames) : value name.toList ∈ microValues := by
  rw [← value_microNames]
  exact List.mem_map_of_mem (f := fun name => value name.toList) h

theorem mem_of_selected {names : List (Bool × String)} {name : String}
    (h : name ∈ selectedNames names) : name ∈ names.map Prod.snd := by
  obtain ⟨n, hn, hname⟩ := List.mem_filterMap.mp h
  split at hname
  · cases hname
    exact List.mem_map_of_mem hn
  · cases hname

theorem names1_subset (g : Group1) : ∀ name ∈ g.names, name ∈ microNames := by
  have hmicro : ∀ n ∈ ["CLA", "CLL", "CMA", "CML", "IAC"], n ∈ microNames := by decide
  have hrotation (r : Rotation) : ∀ n ∈ r.mnemonic?.toList, n ∈ microNames := by
    cases r
    case conflicting => exact nofun
    all_goals decide
  intro name h
  unfold Group1.names at h
  rcases List.mem_append.mp h with h | h
  · rcases List.mem_append.mp h with h | h
    · exact hmicro name (List.mem_append_left ["IAC"] (mem_of_selected h))
    · exact hrotation g.rotation name h
  · exact hmicro name (List.mem_append_right ["CLA", "CLL", "CMA", "CML"] (mem_of_selected h))

theorem names2_subset (g : Group2) : ∀ name ∈ g.names, name ∈ microNames := by
  have hskip : ∀ n ∈ ["SPA", "SNA", "SZL", "SKP", "SMA", "SZA", "SNL"], n ∈ microNames := by decide
  have hrest : ∀ n ∈ ["CLA", "OSR", "HLT"], n ∈ microNames := by decide
  intro name h
  unfold Group2.names Group2.skipNames at h
  rcases List.mem_append.mp h with h | h
  · split at h
    · exact hskip name (List.mem_append_left ["SMA", "SZA", "SNL"] (mem_of_selected h))
    · exact hskip name (List.mem_append_right ["SPA", "SNA", "SZL", "SKP"] (mem_of_selected h))
  · exact hrest name (mem_of_selected h)

/-- A row of names gives the values of all of them; NOP has that of the operate class alone. -/
theorem assemble_namesText {names : List String} (h : ∀ n ∈ names, n ∈ microNames) :
    assemble (namesText names) = 0o7000 ||| total (names.map String.toList) ∧
      leadDigit (namesText names) = 7 := by
  cases names with
  | nil =>
    have hnop : IsToken "NOP" ∧ value "NOP".toList = 0o7000 := by decide
    unfold namesText
    rw [assemble_token hnop.1, leadDigit_token hnop.1, hnop.2]
    exact ⟨rfl, rfl⟩
  | cons n names =>
    have hall : microValues.all (fun v => 0o7000 ||| v == v && v.toNat / 0o1000 == 7) = true := by
      decide
    have hn := List.all_eq_true.mp hall _ (value_mem (h n List.mem_cons_self))
    rw [Bool.and_eq_true, beq_iff_eq, beq_iff_eq] at hn
    unfold assemble leadDigit namesText
    rw [tokens_intercalate fun m hm => isToken_of_mem (h m hm), List.map_cons]
    refine ⟨?_, hn.2⟩
    unfold total
    rw [List.foldr_cons, ← BitVec.or_assoc, hn.1]

/-- What is selected from some names has the values of those that are. -/
theorem total_selectedNames (names : List (Bool × String)) :
    total ((selectedNames names).map String.toList) =
      names.foldr (fun n v => (if n.1 then value n.2.toList else 0) ||| v) 0 := by
  induction names with
  | nil => rfl
  | cons n names ih =>
    obtain ⟨selected, name⟩ := n
    rw [List.foldr_cons, ← ih]
    cases selected
    · exact BitVec.zero_or.symm
    · rfl

/-- The word that stands for all that have its text: of two that do nothing, or only clear AC, the
one of group 1. -/
def plain (word : Word) : Word :=
  if word = 0o7400 then 0o7000 else if word = 0o7600 then 0o7200 else word

theorem total_names1 {g : Group1} (h : ∀ code, g.rotation ≠ .conflicting code) :
    0o7000 ||| total (g.names.map String.toList) = plain g.word := by
  obtain ⟨cla, cll, cma, cml, rotation, iac⟩ := g
  have hvalues := value_microNames
  simp only [microNames, microValues, List.map_cons, List.map_nil, List.cons.injEq] at hvalues
  obtain ⟨hcla, hcll, hcma, hcml, hbsw, hral, hrtl, hrar, hrtr, hiac, -⟩ := hvalues
  unfold Group1.names
  rw [List.map_append, List.map_append, total_append, total_append, total_selectedNames,
    total_selectedNames]
  simp only [List.foldr_cons, List.foldr_nil, hcla, hcll, hcma, hcml, hiac]
  cases rotation
  case conflicting code => exact absurd rfl (h code)
  all_goals
    clear h
    simp only [Rotation.mnemonic?, Option.toList_none, Option.toList_some, List.map_cons,
      List.map_nil, total, List.foldr_cons, List.foldr_nil, hbsw, hral, hrtl, hrar, hrtr]
    revert cla cll cma cml iac
    decide

theorem total_names2 (g : Group2) :
    0o7000 ||| total (g.names.map String.toList) = plain g.word := by
  obtain ⟨sma, sza, snl, reverse, cla, osr, hlt⟩ := g
  have hvalues := value_microNames
  simp only [microNames, microValues, List.map_cons, List.map_nil, List.cons.injEq, and_true]
    at hvalues
  obtain ⟨hcla, -, -, -, -, -, -, -, -, -, hspa, hsna, hszl, hskp, hsma, hsza, hsnl, hosr, hhlt⟩ :=
    hvalues
  unfold Group2.names Group2.skipNames
  rw [List.map_append, total_append, total_selectedNames]
  cases reverse
  all_goals
    simp only [Bool.false_eq_true, if_false, if_true]
    rw [total_selectedNames]
    simp only [List.foldr_cons, List.foldr_nil, hspa, hsna, hszl, hskp, hsma, hsza, hsnl, hcla,
      hosr, hhlt]
    clear hspa hsna hszl hskp hsma hsza hsnl hcla hosr hhlt
    revert sma sza snl cla osr hlt
    decide

/-! ## All instructions -/

theorem plain_of_ne {word : Word} (hnop : word ≠ 0o7400) (hcla : word ≠ 0o7600) :
    plain word = word := by
  unfold plain
  rw [if_neg hnop, if_neg hcla]

theorem plain_of_bit {word : Word} (h : word.getLsbD 8 = false ∨ word.getLsbD 0 = true) :
    plain word = word := by
  refine plain_of_ne ?_ ?_
  all_goals
    rintro rfl
    exact absurd h (by decide)

theorem assemble_operate {word : Word} (hdigit : word.toNat / 0o1000 = 7) (home : Word) :
    assemble (disassemble word home) = plain word ∧ leadDigit (disassemble word home) = 7 := by
  have hopr : IsToken "OPR" ∧ value "OPR".toList = 0o7000 := by decide
  have hraw (hplain : plain word = word) :
      assemble ("OPR " ++ Octal.word word) = plain word ∧
        leadDigit ("OPR " ++ Octal.word word) = 7 := by
    have hblank : "OPR " = "OPR" ++ " " := by decide
    rw [hblank, String.append_assoc, leadDigit_join hopr.1, hplain, hopr.2]
    refine ⟨assemble_raw hopr.1 ?_, rfl⟩
    rw [hopr.2, opcode_eq (d := 7) hdigit]
    rfl
  unfold disassemble
  rw [decode_operate hdigit]
  cases hop : Operate.ofWord word with
  | group1 g =>
    have h8 := (bits_of_group1 hop).1
    have hnames := assemble_namesText (names1_subset g)
    dsimp only
    split
    · exact hraw (plain_of_bit (.inl h8))
    · rename_i hno
      rw [total_names1 hno, ← word_of_group1 hdigit hop] at hnames
      exact hnames
  | group2 g =>
    have hnames := assemble_namesText (names2_subset g)
    rw [total_names2, ← word_of_group2 hdigit hop] at hnames
    exact hnames
  | undefined w =>
    exact hraw (plain_of_bit (.inr (bits_of_undefined hop).2.1))

theorem assemble_iot {word : Word} (hdigit : word.toNat / 0o1000 = 6) (home : Word) :
    assemble (disassemble word home) = word ∧ leadDigit (disassemble word home) = 6 := by
  unfold disassemble
  rw [decode_iot hdigit]
  dsimp only
  cases hname : iotMnemonic? word with
  | some name =>
    obtain ⟨c, rfl⟩ := Transfer.exists_of_iotMnemonic? hname
    rw [c.iotMnemonic?_code] at hname
    cases hname
    exact assemble_name c
  | none =>
    have hiot : IsToken "IOT" ∧ value "IOT".toList = 0o6000 := by decide
    have hblank : "IOT " = "IOT" ++ " " := by decide
    rw [Option.getD_none, hblank, String.append_assoc, leadDigit_join hiot.1, hiot.2]
    refine ⟨assemble_raw hiot.1 ?_, rfl⟩
    rw [hiot.2, opcode_eq (d := 6) hdigit]
    rfl

theorem mnemonic_symbol (op : MemoryOp) :
    IsToken op.mnemonic ∧ (value op.mnemonic.toList).toNat / 0o1000 = op.digit := by
  cases op <;> decide

theorem jump_symbol : IsToken "JMP" ∧ (value "JMP".toList).toNat / 0o1000 = 5 := by decide

/-- The text of an instruction begins with its first digit. -/
theorem leadDigit_disassemble (word home : Word) :
    leadDigit (disassemble word home) = word.toNat / 0o1000 := by
  rcases decode_cases word with ⟨op, hd, hdec⟩ | ⟨hd, hdec⟩ | ⟨hd, -⟩ | ⟨hd, -⟩
  · unfold disassemble
    rw [hdec, hd]
    exact (leadDigit_reference (mnemonic_symbol op).1 _ _).trans (mnemonic_symbol op).2
  · unfold disassemble
    rw [hdec, hd]
    exact (leadDigit_reference jump_symbol.1 _ _).trans jump_symbol.2
  · rw [hd]
    exact (assemble_iot hd home).2
  · rw [hd]
    exact (assemble_operate hd home).2

/-- The text of a transfer or an operate instruction gives back its word, or the plain one. -/
theorem assemble_disassemble {word : Word} (h : 6 ≤ word.toNat / 0o1000) (home : Word) :
    assemble (disassemble word home) = plain word := by
  have hdigit : word.toNat / 0o1000 = 6 ∨ word.toNat / 0o1000 = 7 := by
    have := word.isLt
    omega
  rcases hdigit with hd | hd
  · have hplain : plain word = word := by
      refine plain_of_ne ?_ ?_
      all_goals
        rintro rfl
        exact absurd hd (by decide)
    rw [hplain]
    exact (assemble_iot hd home).1
  · exact (assemble_operate hd home).1

theorem exists_reference {word : Word} (h : word.toNat / 0o1000 < 6) (home : Word) :
    ∃ name, IsToken name ∧ disassemble word home = referenceText name (.ofWord word) home := by
  unfold disassemble
  rcases decode_cases word with ⟨op, -, hdec⟩ | ⟨-, hdec⟩ | ⟨hd, -⟩ | ⟨hd, -⟩
  · rw [hdec]
    exact ⟨op.mnemonic, (mnemonic_symbol op).1, rfl⟩
  · rw [hdec]
    exact ⟨"JMP", jump_symbol.1, rfl⟩
  · omega
  · omega

/-- What two words have in common that have the same text when fetched from `home`. -/
structure SameText (home word word' : Word) : Prop where
  digit : word'.toNat / 0o1000 = word.toNat / 0o1000
  indirect : word.toNat / 0o1000 < 6 → word'.getLsbD 8 = word.getLsbD 8
  named : word.toNat / 0o1000 < 6 →
    Architecture.named word' home = Architecture.named word home
  plain : 6 ≤ word.toNat / 0o1000 → Instruction.plain word' = Instruction.plain word

theorem sameText_of_eq {word word' home : Word}
    (h : disassemble word' home = disassemble word home) :
    SameText home word word' := by
  have hdigit : word'.toNat / 0o1000 = word.toNat / 0o1000 := by
    rw [← leadDigit_disassemble word' home, h, leadDigit_disassemble]
  have hreference (hlt : word.toNat / 0o1000 < 6) :
      word'.getLsbD 8 = word.getLsbD 8 ∧
        Architecture.named word' home = Architecture.named word home := by
    obtain ⟨name, hname, htext⟩ := exists_reference hlt home
    obtain ⟨name', hname', htext'⟩ := exists_reference (hdigit ▸ hlt) home
    rw [htext, htext'] at h
    rw [← Processor.resolve_ofWord, ← Processor.resolve_ofWord]
    exact reference_inj hname' hname h
  refine ⟨hdigit, fun hlt => (hreference hlt).1, fun hlt => (hreference hlt).2, ?_⟩
  intro hle
  rw [← assemble_disassemble hle home, ← h, assemble_disassemble (hdigit ▸ hle)]

end Instruction

end Pdp8
