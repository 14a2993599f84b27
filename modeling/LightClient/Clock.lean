/-!
# Times

A time is a number of milliseconds since the epoch in 64 bits, and so is the time that a clock
shows. A span that does not fit counts as the longest one. Deadlines stop at the last time; a clock
that is moved beyond it starts again.

Module `cache` of the specification (section 10.7): the clock that drives expiry, with `advance` and
`set` of the manual one. Left out: the system clock.
-/
namespace LightClient.Clock

/-- The last time, which stands for every later one too. -/
def last : Nat := UInt64.size - 1

/-- A number of milliseconds in 64 bits. -/
def ofMillis (ms : Nat) : UInt64 := UInt64.ofNat (min ms last)

/-- The time `ms` milliseconds after `now`, but not after the last one. -/
def after (now : UInt64) (ms : Nat) : UInt64 := ofMillis (now.toNat + ms)

/-- What a clock that shows `now` shows once it has been moved on by `ms` milliseconds. -/
def advance (now : UInt64) (ms : Nat) : UInt64 := now + ofMillis ms

end LightClient.Clock
