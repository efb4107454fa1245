import Pdp8.Instruction
import Pdp8.Octal

/-!
# Pdp8.Instruction.Mnemonic — instructions in assembly language

`disassemble` writes the word fetched from an address as an assembler would accept it: operands
are absolute, micro-instructions are listed by name, and a word that no name describes is given
in octal.
-/

namespace Pdp8

/-- The name of a memory reference instruction. -/
def MemoryOp.mnemonic : MemoryOp → String
  | .and => "AND"
  | .tad => "TAD"
  | .isz => "ISZ"
  | .dca => "DCA"
  | .jms => "JMS"

/-- The names of those micro-instructions that are selected. -/
def selectedNames (names : List (Bool × String)) : List String :=
  names.filterMap fun n => if n.1 then some n.2 else none

/-- The name of a rotation that has one. -/
def Rotation.mnemonic? : Rotation → Option String
  | .none => Option.none
  | .byteSwap => some "BSW"
  | .left => some "RAL"
  | .leftTwice => some "RTL"
  | .right => some "RAR"
  | .rightTwice => some "RTR"
  | .conflicting _ => Option.none

/-- The names of the micro-instructions of group 1. -/
def Group1.names (g : Group1) : List String :=
  selectedNames [(g.cla, "CLA"), (g.cll, "CLL"), (g.cma, "CMA"), (g.cml, "CML")]
    ++ g.rotation.mnemonic?.toList
    ++ selectedNames [(g.iac, "IAC")]

/-- The names of the skip conditions of group 2; a reversed instruction without any of them skips
always. -/
def Group2.skipNames (g : Group2) : List String :=
  if g.reverse then
    selectedNames
      [(g.sma, "SPA"), (g.sza, "SNA"), (g.snl, "SZL"), (!(g.sma || g.sza || g.snl), "SKP")]
  else selectedNames [(g.sma, "SMA"), (g.sza, "SZA"), (g.snl, "SNL")]

/-- The names of the micro-instructions of group 2. -/
def Group2.names (g : Group2) : List String :=
  g.skipNames ++ selectedNames [(g.cla, "CLA"), (g.osr, "OSR"), (g.hlt, "HLT")]

/-- The name of an input-output transfer of the processor, the teletype or the memory extension.
A field is named by its number shifted into place, as assemblers write it. -/
def iotMnemonic? (code : Word) : Option String :=
  match code.toNat with
  | 0o6001 => some "ION"
  | 0o6002 => some "IOF"
  | 0o6031 => some "KSF"
  | 0o6032 => some "KCC"
  | 0o6034 => some "KRS"
  | 0o6035 => some "KIE"
  | 0o6036 => some "KRB"
  | 0o6041 => some "TSF"
  | 0o6042 => some "TCF"
  | 0o6044 => some "TPC"
  | 0o6045 => some "TSK"
  | 0o6046 => some "TLS"
  | 0o6214 => some "RDF"
  | 0o6224 => some "RIF"
  | 0o6234 => some "RIB"
  | 0o6244 => some "RMF"
  | _ =>
    if code &&& 0o7700 = 0o6200 ∧ code &&& 0o4 = 0 ∧ code &&& 0o3 ≠ 0 then
      let field := " " ++ Octal.text code.fieldBits.toBits5To3.toNat
      if code &&& 0o3 = 1 then some ("CDF" ++ field)
      else if code &&& 0o3 = 2 then some ("CIF" ++ field)
      else some ("CDF CIF" ++ field)
    else none

namespace Instruction

/-- A mnemonic with its operand, for an instruction fetched from `home`. -/
def referenceText (name : String) (o : Operand) (home : Word) : String :=
  name ++ (if o.indirect then " I " else " ") ++ Octal.word (o.resolve home)

/-- The text of a row of names; an instruction that does nothing is a NOP. -/
def namesText : List String → String
  | [] => "NOP"
  | names => " ".intercalate names

/-- The assembly text of the word `word` fetched from location `home`. -/
def disassemble (word home : Word) : String :=
  match decode word with
  | .memory op operand => referenceText op.mnemonic operand home
  | .jump operand => referenceText "JMP" operand home
  | .iot code => (iotMnemonic? code).getD ("IOT " ++ Octal.word code)
  | .operate (.group1 g) =>
    match g.rotation with
    | .conflicting _ => "OPR " ++ Octal.word word
    | _ => namesText g.names
  | .operate (.group2 g) => namesText g.names
  | .operate (.undefined _) => "OPR " ++ Octal.word word

end Instruction

end Pdp8
