import Pdp8.Word

/-!
# Pdp8.Octal — numbers in octal text

Everything the machine shows is octal.  A number is written with the fewest digits, or padded with
zeros to a least width; it is read back from one or more octal digits, before which a single plus
sign is allowed.
-/

namespace Pdp8.Octal

/-- The value of an octal digit. -/
def digit? (c : Char) : Option Nat :=
  if '0' ≤ c ∧ c ≤ '7' then some (c.toNat - '0'.toNat) else none

/-- The value of a row of digits that continues a number already read as `n`. -/
def continue? (n : Nat) : List Char → Option Nat
  | [] => some n
  | c :: cs => (digit? c).bind fun d => continue? (8 * n + d) cs

/-- The value of one or more octal digits. -/
def digits? : List Char → Option Nat
  | [] => none
  | cs => continue? 0 cs

/-- The value of an octal number, with or without a leading plus sign. -/
def parse? : List Char → Option Nat
  | '+' :: cs => digits? cs
  | cs => digits? cs

/-- A word of the given width, written in octal. -/
def parseWord? (w : Nat) (cs : List Char) : Option (BitVec w) :=
  (parse? cs).bind fun n => (Word.ofInt w n).toOption

/-- The digits of `n`, the most significant first. -/
def digits (n : Nat) : List Char := Nat.toDigits 8 n

/-- The text of `n` in the fewest digits. -/
def text (n : Nat) : String := String.ofList (digits n)

/-- `cs` with `fill` before it up to the given width. -/
def padLeft (width : Nat) (fill : Char) (cs : List Char) : List Char :=
  List.replicate (width - cs.length) fill ++ cs

/-- The text of `n` in at least `width` digits. -/
def padded (width n : Nat) : String := String.ofList (padLeft width '0' (digits n))

/-- The text of a word in at least four digits. -/
def word {w : Nat} (a : BitVec w) : String := padded 4 a.toNat

/-- The text of `n` with the mark of an octal number, in at least `width` characters. -/
def marked (width n : Nat) : String := "0o" ++ padded (width - 2) n

/-- The text of `n` with blanks after it, in at least `width` characters. -/
def leftAligned (width n : Nat) : String :=
  String.ofList (digits n ++ List.replicate (width - (digits n).length) ' ')

/-- A word with its width, for diagnosis. -/
def described {w : Nat} (a : BitVec w) : String :=
  "Unsigned" ++ toString w ++ "Bit\x7bbits: " ++ marked 0 a.toNat ++ "\x7d"

end Pdp8.Octal
