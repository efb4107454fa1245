import Pdp8.Word

/-!
# Pdp8.Teletype.Line — the teletype's connections

The teletype is joined to the outside by two one-way lines of bytes.  Neither ever makes the
machine wait: a keyboard line with nothing to deliver and a printer line that cannot take a byte
yet are ordinary, and only a `LineFailure` is not.  Both ends of a line are plain data, so any
behaviour of the outside is a value: a queue, or a script of answers.
-/

namespace Pdp8

/-- Why an output stream refused an operation. -/
inductive StreamError
  | wouldBlock
  | interrupted
  | other (text : String)
  deriving DecidableEq, Repr

/-- The wording of a stream error. -/
def StreamError.message : StreamError → String
  | .wouldBlock => "operation would block"
  | .interrupted => "operation interrupted"
  | .other text => text

/-- Failure of a line. -/
inductive LineFailure
  /-- The other end has gone away. -/
  | closed
  | stream (e : StreamError)
  deriving DecidableEq, Repr

/-- The wording of a line failure. -/
def LineFailure.message : LineFailure → String
  | .closed => "channel closed"
  | .stream e => "I/O error: " ++ e.message

/-- The line that characters are typed on. -/
inductive Keyboard
  /-- Nothing is joined to the teletype: no character ever comes. -/
  | unconnected
  /-- A queue of bytes; no more can be sent once the sender has hung up. -/
  | queue (waiting : List Byte) (connected : Bool)
  /-- The answers to successive reads, and nothing more after the last of them. -/
  | script (answers : List (Except LineFailure (Option Byte)))

namespace Keyboard

/-- The next character, if one is ready, and the line after the read.  A queue whose sender has
hung up is silent once it is empty. -/
def read : Keyboard → Except LineFailure (Option Byte) × Keyboard
  | .unconnected => (.ok none, .unconnected)
  | .queue [] connected => (.ok none, .queue [] connected)
  | .queue (b :: bs) connected => (.ok (some b), .queue bs connected)
  | .script [] => (.ok none, .script [])
  | .script (r :: rs) => (r, .script rs)

/-- Bytes sent along the line; only a connected queue takes them. -/
def send (bytes : List Byte) : Keyboard → Keyboard
  | .queue waiting true => .queue (waiting ++ bytes) true
  | k => k

/-- The sender of a queue goes away. -/
def hangUp : Keyboard → Keyboard
  | .queue waiting _ => .queue waiting false
  | k => k

end Keyboard

/-- Where printed characters go. -/
inductive Sink
  /-- Nothing is joined to the teletype: no character is ever taken. -/
  | unconnected
  /-- A queue, whose receiver may have gone away. -/
  | queue (connected : Bool)
  /-- A stream of bytes.  `writes` are the answers to successive writes, `true` when the byte was
  taken, and `flushes` those to successive flushes; a list that is used up answers with success. -/
  | stream (writes : List (Except StreamError Bool)) (flushes : List (Except StreamError Unit))

/-- The line that characters are printed on, with every byte it has taken, newest first. -/
structure Printer where
  sink : Sink
  taken : List Byte

namespace Printer

/-- A line that has taken nothing yet. -/
def ofSink (sink : Sink) : Printer := ⟨sink, []⟩

/-- The bytes that the line has taken, oldest first. -/
def printed (p : Printer) : List Byte := p.taken.reverse

/-- The line with a byte more on it, and another sink behind it. -/
def take (b : Byte) (sink : Sink) (p : Printer) : Printer := ⟨sink, b :: p.taken⟩

/-- The line without the bytes that it has taken. -/
def collected (p : Printer) : Printer := { p with taken := [] }

@[simp] theorem printed_ofSink (sink : Sink) : (ofSink sink).printed = [] := rfl

@[simp] theorem printed_take (b : Byte) (sink : Sink) (p : Printer) :
    (p.take b sink).printed = p.printed ++ [b] := by
  simp [printed, take]

@[simp] theorem printed_collected (p : Printer) : p.collected.printed = [] := rfl

/-- The answer to the next write of a stream. -/
def nextWrite : List (Except StreamError Bool) → Except StreamError Bool
  | [] => .ok true
  | r :: _ => r

/-- The answer to the next flush of a stream. -/
def nextFlush : List (Except StreamError Unit) → Except StreamError Unit
  | [] => .ok ()
  | r :: _ => r

/-- Offer a byte.  The answer is `true` when the line took it and `false` when it should be
offered again later.  A stream that takes the byte is flushed at once; a stream that takes nothing
is closed. -/
def write (b : Byte) (p : Printer) : Except LineFailure Bool × Printer :=
  match p.sink with
  | .unconnected => (.ok false, p)
  | .queue true => (.ok true, p.take b (.queue true))
  | .queue false => (.error .closed, p)
  | .stream writes flushes =>
    match nextWrite writes with
    | .ok false => (.error .closed, { p with sink := .stream writes.tail flushes })
    | .ok true =>
      let taken := p.take b (.stream writes.tail flushes.tail)
      match nextFlush flushes with
      | .ok () => (.ok true, taken)
      | .error e => (.error (.stream e), taken)
    | .error .wouldBlock => (.ok false, { p with sink := .stream writes.tail flushes })
    | .error .interrupted => (.ok false, { p with sink := .stream writes.tail flushes })
    | .error e => (.error (.stream e), { p with sink := .stream writes.tail flushes })

/-- The receiver of a queue goes away. -/
def close (p : Printer) : Printer :=
  match p.sink with
  | .queue _ => { p with sink := .queue false }
  | _ => p

end Printer

end Pdp8
