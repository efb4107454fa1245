import Pdp8.Setup

/-!
# Pdp8.CommandLine — the options of the simulator

The command line names an image, and may set the number of fields, the teletype's speed, the start
address, tracing and the register dump.  Each option may be given once, as `--name value` or
`--name=value`; the two numbers and tracing may come from the environment instead.  Arguments are
taken in order, so the first one that is wrong, or that asks for help, settles the matter.
-/

namespace Pdp8

/-- Why the command line gives nothing to run. -/
inductive Refusal
  /-- The command line is wrong. -/
  | usage
  | help
  | version
  deriving DecidableEq, Repr

/-- The variables of the environment that stand in for options. -/
structure Environment where
  fields : Option String
  charsPerSecond : Option String
  traced : Option String
  deriving DecidableEq, Repr

/-- The options of a run. -/
structure Options where
  image : String
  fields : Nat
  charsPerSecond : Nat
  traced : Bool
  start : String
  dumpRegisters : Bool
  deriving DecidableEq, Repr

namespace CommandLine

/-- The value of one or more decimal digits that continue `n`. -/
def continue? (n : Nat) : List Char → Option Nat
  | [] => some n
  | c :: cs => if c.isDigit then continue? (10 * n + (c.toNat - '0'.toNat)) cs else none

/-- The value of one or more decimal digits. -/
def digits? : List Char → Option Nat
  | [] => none
  | cs => continue? 0 cs

/-- A decimal number, which may have a sign. -/
def integer? : List Char → Option Int
  | '+' :: cs => (digits? cs).map Int.ofNat
  | '-' :: cs => (digits? cs).map fun n => -(n : Int)
  | cs => (digits? cs).map Int.ofNat

/-- A decimal number from 0 to `limit`. -/
def number? (limit : Nat) (s : String) : Option Nat :=
  match integer? s.toList with
  | some v => if 0 ≤ v ∧ v ≤ limit then some v.toNat else none
  | none => none

/-- The greatest number of fields that can be written. -/
def maxFields : Nat := 255

/-- The greatest speed that can be written. -/
def maxCharsPerSecond : Nat := 4294967295

/-- A truth value in words. -/
def flag? (s : String) : Option Bool :=
  let s := String.ofList (s.toList.map Char.toLower)
  if ["y", "yes", "t", "true", "on", "1"].contains s then some true
  else if ["n", "no", "f", "false", "off", "0"].contains s then some false
  else none

/-- What the arguments have given so far. -/
structure Given where
  image : Option String
  fields : Option Nat
  charsPerSecond : Option Nat
  start : Option String
  traced : Bool
  dumpRegisters : Bool
  deriving DecidableEq, Repr

/-- Nothing given. -/
def Given.none : Given := ⟨Option.none, Option.none, Option.none, Option.none, false, false⟩

namespace Given

/-- Take the image. -/
def takeImage (s : String) (g : Given) : Except Refusal Given :=
  if g.image.isSome then .error .usage else .ok { g with image := some s }

/-- Take an option without a value, which must not have one attached. -/
def takeFlag (name : String) (attached : Bool) (g : Given) : Except Refusal Given :=
  if attached then .error .usage
  else if name = "help" then .error .help
  else if name = "version" then .error .version
  else if name = "trace" ∧ g.traced = false then .ok { g with traced := true }
  else if name = "dump-registers" ∧ g.dumpRegisters = false then
    .ok { g with dumpRegisters := true }
  else .error .usage

/-- Take an option with its value. -/
def takeValue (name value : String) (g : Given) : Except Refusal Given :=
  if name = "fields" then
    match g.fields, number? CommandLine.maxFields value with
    | Option.none, some n => .ok { g with fields := some n }
    | _, _ => .error .usage
  else if name = "tty-cps" then
    match g.charsPerSecond, number? CommandLine.maxCharsPerSecond value with
    | Option.none, some n => .ok { g with charsPerSecond := some n }
    | _, _ => .error .usage
  else if name = "start" ∧ g.start.isNone then .ok { g with start := some value }
  else .error .usage

end Given

/-- Whether an option of this name has a value. -/
def hasValue (name : String) : Bool := ["fields", "tty-cps", "start"].contains name

/-- The forms that an argument can have. -/
inductive Form
  /-- `--`, after which all arguments are positional. -/
  | terminator
  /-- `--name` or `--name=value`. -/
  | long (name : String) (attached : Option String)
  /-- `-x`, of which only the first letter matters. -/
  | short (letter : Char)
  | positional
  deriving DecidableEq, Repr

/-- The form of an argument. -/
def formOf (arg : String) : Form :=
  match arg.toList with
  | ['-', '-'] => .terminator
  | '-' :: '-' :: cs =>
    match cs.dropWhile (· != '=') with
    | [] => .long (String.ofList cs) none
    | _ :: value => .long (String.ofList (cs.takeWhile (· != '='))) (some (String.ofList value))
  | '-' :: c :: _ => .short c
  | _ => .positional

/-- Take arguments that are all positional. -/
def takePositional : List String → Given → Except Refusal Given
  | [], g => .ok g
  | arg :: args, g =>
    match g.takeImage arg with
    | .error e => .error e
    | .ok g => takePositional args g

/-- Take arguments in order; `waiting` is the option whose value comes next. -/
def take (waiting : Option String) : List String → Given → Except Refusal Given
  | [], g => if waiting.isSome then .error .usage else .ok g
  | arg :: args, g =>
    match waiting, formOf arg with
    | some name, .positional =>
      match g.takeValue name arg with
      | .error e => .error e
      | .ok g => take none args g
    | some _, _ => .error .usage
    | none, .positional =>
      match g.takeImage arg with
      | .error e => .error e
      | .ok g => take none args g
    | none, .terminator => takePositional args g
    | none, .short 'h' => .error .help
    | none, .short 'V' => .error .version
    | none, .short _ => .error .usage
    | none, .long name attached =>
      if hasValue name then
        match attached with
        | none => take (some name) args g
        | some value =>
          match g.takeValue name value with
          | .error e => .error e
          | .ok g => take none args g
      else
        match g.takeFlag name attached.isSome with
        | .error e => .error e
        | .ok g => take none args g

/-- A setting from the arguments, else from the environment, else by default. -/
def settle {α : Type} (given : Option α) (inherited : Option String) (read : String → Option α)
    (default : α) : Except Refusal α :=
  match given, inherited with
  | some a, _ => .ok a
  | none, none => .ok default
  | none, some s =>
    match read s with
    | some a => .ok a
    | none => .error .usage

/-- Fill in what the arguments have left open. -/
def complete (g : Given) (env : Environment) : Except Refusal Options := do
  let fields ← settle g.fields env.fields (number? maxFields) Setup.standard.fieldCount
  let charsPerSecond ←
    settle g.charsPerSecond env.charsPerSecond (number? maxCharsPerSecond)
      Setup.standard.charsPerSecond
  let traced ←
    settle (if g.traced then some true else none) env.traced flag? Setup.standard.traced
  match g.image with
  | none => .error .usage
  | some image =>
    .ok
      { image := image
        fields := fields
        charsPerSecond := charsPerSecond
        traced := traced
        start := g.start.getD "0200"
        dumpRegisters := g.dumpRegisters }

/-- The options given by some arguments and an environment. -/
def parse (args : List String) (env : Environment) : Except Refusal Options :=
  match take none args .none with
  | .error e => .error e
  | .ok g => complete g env

end CommandLine

end Pdp8
