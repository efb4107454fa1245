/-!
# Pdp8.Setup — the configuration of a machine

How many memory fields are fitted, how fast the teletype is, and whether instructions are traced.
-/

namespace Pdp8

/-- The greatest number of fields a machine can have. -/
def Setup.maxFields : Nat := 8

/-- The greatest teletype speed, in characters per second. -/
def Setup.maxCharsPerSecond : Nat := 1000000

/-- The configuration of a machine. -/
structure Setup where
  fieldCount : Nat
  charsPerSecond : Nat
  traced : Bool
  deriving DecidableEq, Repr

/-- Why a configuration is refused. -/
inductive SetupError
  | fieldCount (n : Nat)
  | charRate (n : Nat)
  deriving DecidableEq, Repr

/-- The wording of a refusal. -/
def SetupError.message : SetupError → String
  | .fieldCount n =>
    "number of memory fields " ++ toString n ++ " must be in range 1.."
      ++ toString Setup.maxFields
  | .charRate n =>
    "teletype speed " ++ toString n ++ " characters per second must be in range 1.."
      ++ toString Setup.maxCharsPerSecond

namespace Setup

/-- Two fields, ten characters per second, no trace. -/
def standard : Setup := ⟨2, 10, false⟩

/-- Refuse a configuration that is out of range; the number of fields is looked at first. -/
def validate (s : Setup) : Except SetupError Unit :=
  if s.fieldCount < 1 ∨ maxFields < s.fieldCount then .error (.fieldCount s.fieldCount)
  else if s.charsPerSecond < 1 ∨ maxCharsPerSecond < s.charsPerSecond then
    .error (.charRate s.charsPerSecond)
  else .ok ()

theorem validate_eq_ok_iff (s : Setup) :
    s.validate = .ok () ↔
      (1 ≤ s.fieldCount ∧ s.fieldCount ≤ maxFields) ∧
        1 ≤ s.charsPerSecond ∧ s.charsPerSecond ≤ maxCharsPerSecond := by
  unfold validate
  split
  · constructor
    · intro h; cases h
    · intro h; omega
  · split
    · constructor
      · intro h; cases h
      · intro h; omega
    · constructor
      · intro _; omega
      · intro _; rfl

end Setup

end Pdp8
