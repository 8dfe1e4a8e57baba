import TurnRelay.Time.Span

/-!
# Delays between attempts

After a failed attempt the client waits before the next one: first for a base delay, then each time
twice as long, but never longer than a cap. A successful attempt starts the schedule anew. The delays are
counted in a word of 32 bits.

## Main definitions

* `Gateway.Backoff`: where the schedule stands.
* `Backoff.attempts`: how many delays it has given.
* `Backoff.next`, `Backoff.reset`: the next delay, and starting anew.
-/

namespace TurnRelay.Gateway

/-- A schedule of delays. -/
structure Backoff where
  /-- The first delay. -/
  base : Span
  /-- The longest delay. -/
  cap : Span
  /-- The next delay, before it is capped. -/
  current : Span
  /-- How many delays have been given since the schedule began. -/
  count : UInt32
  deriving DecidableEq, Repr

namespace Backoff

/-- How many delays have been given since the schedule began. -/
def attempts (b : Backoff) : Nat := b.count.toNat

/-- A schedule at its beginning. -/
def new (base cap : Span) : Backoff := ⟨base, cap, base, 0⟩

/-- The next delay. -/
def next (b : Backoff) : Span × Backoff :=
  (b.current.shorter b.cap,
    { b with current := b.current.double.shorter b.cap, count := b.count + 1 })

/-- The schedule at its beginning again. -/
def reset (b : Backoff) : Backoff := { b with current := b.base, count := 0 }

end Backoff

end TurnRelay.Gateway
