/-!
# Pdp8.Clock — time as the peripherals see it

Time is counted in nanoseconds from an arbitrary start.  A clock moves forward by a fixed amount
each time it is read, and otherwise only when it is told to; successive readings never decrease.

`Time` has no end.  The times that a host measures do have one, far beyond any run, and a program
that adds beyond it is stopped; that is left out here.
-/

namespace Pdp8

/-- Nanoseconds since the start. -/
abbrev Time := Nat

/-- Microseconds as a time. -/
def Time.ofMicros (n : Nat) : Time := 1000 * n

/-- A time in whole microseconds. -/
def Time.toMicros (t : Time) : Nat := t / 1000

/-- A clock that moves forward by `tick` after each reading. -/
structure Clock where
  now : Time
  tick : Time
  deriving DecidableEq, Repr

namespace Clock

/-- The present time, and the clock after it has been read. -/
def read (c : Clock) : Time × Clock := (c.now, { c with now := c.now + c.tick })

/-- Let some time pass. -/
def advance (interval : Time) (c : Clock) : Clock := { c with now := c.now + interval }

end Clock

end Pdp8
