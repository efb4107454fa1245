import Pdp8.Text.Blank

/-!
# Pdp8.Text.Split — cutting text into parts

Text is a list of characters.  `splitWhen` cuts it at every separator, `cut?` at the first one;
lines, tokens and trimming follow from them.
-/

namespace Pdp8.Text

/-- Put a character before the first of some parts. -/
def consFirst (c : Char) : List (List Char) → List (List Char)
  | [] => [[c]]
  | part :: parts => (c :: part) :: parts

/-- The parts of a text between the characters that satisfy `sep`; there is one part more than
there are separators. -/
def splitWhen (sep : Char → Bool) (cs : List Char) : List (List Char) :=
  cs.foldr (fun c parts => if sep c then [] :: parts else consFirst c parts) [[]]

/-- The lines of a text. -/
def lines (cs : List Char) : List (List Char) := splitWhen (· == '\n') cs

/-- The parts of a text between runs of white space. -/
def tokens (cs : List Char) : List (List Char) :=
  (splitWhen isBlank cs).filter fun part => !part.isEmpty

/-- A text without the white space around it. -/
def trim (cs : List Char) : List Char :=
  ((cs.dropWhile isBlank).reverse.dropWhile isBlank).reverse

/-- What comes before the first `sep`, and what comes after it. -/
def cut? (sep : Char) (cs : List Char) : Option (List Char × List Char) :=
  match cs.dropWhile (· != sep) with
  | [] => none
  | _ :: rest => some (cs.takeWhile (· != sep), rest)

theorem splitWhen_nil (sep : Char → Bool) : splitWhen sep [] = [[]] := rfl

theorem splitWhen_cons (sep : Char → Bool) (c : Char) (cs : List Char) :
    splitWhen sep (c :: cs) =
      if sep c then [] :: splitWhen sep cs else consFirst c (splitWhen sep cs) := rfl

theorem splitWhen_ne_nil (sep : Char → Bool) (cs : List Char) : splitWhen sep cs ≠ [] := by
  cases cs with
  | nil => simp [splitWhen_nil]
  | cons c cs =>
    rw [splitWhen_cons]
    split
    · simp
    · cases splitWhen sep cs <;> simp [consFirst]

end Pdp8.Text
