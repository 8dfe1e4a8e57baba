import TurnRelay.Time.Span

/-!
# The clock

Moments are counted in nanoseconds from where the clock begins. The clock keeps its seconds in a signed word of 64 bits,
so there is a last moment, and a span can reach beyond it. A program that adds such a span to the present fails.

## Main definitions

* `Clock.last`: the last moment.
* `Clock.tells`: whether the clock can tell a moment.
-/

namespace TurnRelay.Clock

/-- The last moment: `2 ^ 63` seconds from where the clock begins, less one nanosecond. -/
def last : Nat := UInt64.size / 2 * nanosPerSecond - 1

/-- Whether the clock can tell a moment. -/
def tells (moment : Nat) : Bool := decide (moment ≤ last)

end TurnRelay.Clock
