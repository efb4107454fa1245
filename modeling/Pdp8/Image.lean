import Pdp8.Address
import Pdp8.Text.Split

/-!
# Pdp8.Image — core images in octal text

Each line of an image gives a starting address and the words to be loaded there, as in
`0.0200: 7200 1207`.  A slash begins a comment, and lines with nothing else in them are skipped.
Reading stops at the first line that is neither, and says which it is and what is wrong.
-/

namespace Pdp8

/-- Consecutive words, and where the first of them goes. -/
structure Block where
  start : Address
  words : List Word
  deriving DecidableEq, Repr

/-- What is wrong with a line of an image. -/
inductive LineError
  | missingColon
  | badAddress (text : String)
  | badWord (text : String)
  deriving DecidableEq, Repr

/-- The wording of what is wrong with a line. -/
def LineError.message : LineError → String
  | .missingColon => "expected ':' after the address"
  | .badAddress text => "'" ++ text ++ "' is not a valid octal address"
  | .badWord text => "'" ++ text ++ "' is not a valid 12-bit octal word"

/-- Why an image cannot be read: the number of the line, from 1, and what is wrong with it. -/
structure ImageError where
  line : Nat
  error : LineError
  deriving DecidableEq, Repr

/-- The wording of an image error. -/
def ImageError.message (e : ImageError) : String :=
  "line " ++ toString e.line ++ ": " ++ e.error.message

/-- An address in octal, with or without a field and a point before it. -/
def Address.parseChars? (cs : List Char) : Option Address :=
  match Text.cut? '.' cs with
  | some (f, a) =>
    (Octal.parseWord? 3 f).bind fun field => (Octal.parseWord? 12 a).map fun a => ⟨field, a⟩
  | none => (Octal.parseWord? 12 cs).map fun a => ⟨0, a⟩

/-- An address in octal. -/
def Address.parse? (s : String) : Option Address := Address.parseChars? s.toList

namespace Image

/-- A line without its comment and the white space around it. -/
def content (line : List Char) : List Char := Text.trim (line.takeWhile (· != '/'))

/-- The words of a line, or the first that is none. -/
def parseWords : List (List Char) → Except LineError (List Word)
  | [] => .ok []
  | t :: ts =>
    match Octal.parseWord? 12 t with
    | none => .error (.badWord (String.ofList t))
    | some w =>
      match parseWords ts with
      | .ok ws => .ok (w :: ws)
      | .error e => .error e

/-- The block given by the content of a line. -/
def parseContent (cs : List Char) : Except LineError Block :=
  match Text.cut? ':' cs with
  | none => .error .missingColon
  | some (address, rest) =>
    match Address.parseChars? (Text.trim address) with
    | none => .error (.badAddress (String.ofList (Text.trim address)))
    | some start =>
      match parseWords (Text.tokens rest) with
      | .ok words => .ok ⟨start, words⟩
      | .error e => .error e

/-- The block given by a line, if it has any content. -/
def parseLine (line : List Char) : Except LineError (Option Block) :=
  match content line with
  | [] => .ok none
  | c :: cs =>
    match parseContent (c :: cs) with
    | .ok block => .ok (some block)
    | .error e => .error e

/-- The blocks given by some lines, of which the first has the number `n`. -/
def parseLines (n : Nat) : List (List Char) → Except ImageError (List Block)
  | [] => .ok []
  | line :: rest =>
    match parseLine line with
    | .error e => .error ⟨n, e⟩
    | .ok block =>
      match parseLines (n + 1) rest with
      | .error e => .error e
      | .ok blocks => .ok (block.toList ++ blocks)

/-- The blocks of an image. -/
def parseChars (cs : List Char) : Except ImageError (List Block) :=
  parseLines 1 (Text.lines cs)

/-- The blocks of an image. -/
def parse (text : String) : Except ImageError (List Block) := parseChars text.toList

end Image

/-- Why the front panel cannot load at an address. -/
inductive ReachError
  /-- The field switches select fields 0 and 1 only. -/
  | switchedFields (place : Address)
  /-- The field is not fitted. -/
  | notFitted (place : Address) (fieldCount : Nat)
  deriving DecidableEq, Repr

/-- The wording of a reach error. -/
def ReachError.message : ReachError → String
  | .switchedFields place => place.text ++ ": the front panel can only load fields 0 and 1"
  | .notFitted place fieldCount =>
    place.text ++ ": only " ++ toString fieldCount ++ " memory field(s) are fitted"

/-- Refuse an address that the front panel of a machine with `fieldCount` fields cannot load. -/
def Address.checkReach (fieldCount : Nat) (place : Address) : Except ReachError Unit :=
  if 1 < place.field.toNat then .error (.switchedFields place)
  else if fieldCount ≤ place.field.toNat then .error (.notFitted place fieldCount)
  else .ok ()

end Pdp8
