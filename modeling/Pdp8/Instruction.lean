import Pdp8.Word

/-!
# Pdp8.Instruction — what the words mean

Every 12-bit word is an instruction.  Its top three bits are the opcode: 0 to 4 refer to core
(AND, TAD, ISZ, DCA, JMS), 5 is JMP, 6 an input-output transfer, and 7 the operate class, whose
bits are micro-instructions that are carried out together.  `Instruction.decode` is total.
-/

namespace Pdp8

/-- The instructions that refer to an operand in core. -/
inductive MemoryOp
  | and
  | tad
  | isz
  | dca
  | jms
  deriving DecidableEq, Repr

/-- Where an instruction finds its operand: an offset in page zero or in its own page, which is
the address of a pointer when the reference is indirect. -/
structure Operand where
  indirect : Bool
  currentPage : Bool
  offset : PageOffset
  deriving DecidableEq, Repr

namespace Operand

/-- The operand part of an instruction word. -/
def ofWord (word : Word) : Operand where
  indirect := word.getLsbD 8
  currentPage := word.getLsbD 7
  offset := word.setWidth 7

/-- The location an operand names, for an instruction fetched from `home`. -/
def resolve (o : Operand) (home : Word) : Word :=
  if o.currentPage then (home &&& 0o7600) ||| o.offset.setWidth 12 else o.offset.setWidth 12

end Operand

/-- The rotate field of a group 1 instruction. -/
inductive Rotation
  | none
  | byteSwap
  | left
  | leftTwice
  | right
  | rightTwice
  /-- Both directions at once, which has no defined result. -/
  | conflicting (code : BitVec 3)
  deriving DecidableEq, Repr

/-- The rotation selected by a three-bit code. -/
def Rotation.ofCode (code : BitVec 3) : Rotation :=
  match code.toNat with
  | 0 => .none
  | 1 => .byteSwap
  | 2 => .left
  | 3 => .leftTwice
  | 4 => .right
  | 5 => .rightTwice
  | _ => .conflicting code

/-- Group 1: clear, complement, rotate and increment, in that order. -/
structure Group1 where
  cla : Bool
  cll : Bool
  cma : Bool
  cml : Bool
  rotation : Rotation
  iac : Bool
  deriving DecidableEq, Repr

/-- Group 2: skip if any of the conditions holds (or, reversed, if none does), then clear, OR the
switches and halt. -/
structure Group2 where
  sma : Bool
  sza : Bool
  snl : Bool
  reverse : Bool
  cla : Bool
  osr : Bool
  hlt : Bool
  deriving DecidableEq, Repr

/-- The operate class. -/
inductive Operate
  | group1 (g : Group1)
  | group2 (g : Group2)
  /-- Group 3 words belong to an arithmetic element that this machine does not have. -/
  | undefined (word : Word)
  deriving DecidableEq, Repr

/-- An instruction. -/
inductive Instruction
  | memory (op : MemoryOp) (operand : Operand)
  | jump (operand : Operand)
  | iot (code : Word)
  | operate (op : Operate)
  deriving DecidableEq, Repr

/-- The micro-instructions of an operate word. -/
def Operate.ofWord (word : Word) : Operate :=
  if word.getLsbD 8 = false then
    .group1
      { cla := word.getLsbD 7
        cll := word.getLsbD 6
        cma := word.getLsbD 5
        cml := word.getLsbD 4
        rotation := .ofCode (word.extractLsb' 1 3)
        iac := word.getLsbD 0 }
  else if word.getLsbD 0 = false then
    .group2
      { cla := word.getLsbD 7
        sma := word.getLsbD 6
        sza := word.getLsbD 5
        snl := word.getLsbD 4
        reverse := word.getLsbD 3
        osr := word.getLsbD 2
        hlt := word.getLsbD 1 }
  else .undefined word

namespace Instruction

/-- The instruction that a word stands for. -/
def decode (word : Word) : Instruction :=
  match word.opcode.toNat with
  | 0 => .memory .and (.ofWord word)
  | 1 => .memory .tad (.ofWord word)
  | 2 => .memory .isz (.ofWord word)
  | 3 => .memory .dca (.ofWord word)
  | 4 => .memory .jms (.ofWord word)
  | 5 => .jump (.ofWord word)
  | 6 => .iot word
  | _ => .operate (.ofWord word)

/-- JMP and JMS, which bring a selected instruction field into effect. -/
def isJumpClass : Instruction → Bool
  | .jump _ => true
  | .memory .jms _ => true
  | _ => false

/-- The operand that is still to be dealt with after the fetch cycle; a direct JMP, an IOT and an
operate instruction leave none. -/
def pendingOperand? : Instruction → Option Operand
  | .memory _ operand => some operand
  | .jump operand => if operand.indirect then some operand else none
  | .iot _ => none
  | .operate _ => none

/-- Whether the fetch cycle carries out the whole instruction. -/
def completesInFetch (i : Instruction) : Bool := i.pendingOperand?.isNone

/-- The operand of an instruction that has one. -/
def operand? : Instruction → Option Operand
  | .memory _ operand => some operand
  | .jump operand => some operand
  | .iot _ => none
  | .operate _ => none

end Instruction

end Pdp8
