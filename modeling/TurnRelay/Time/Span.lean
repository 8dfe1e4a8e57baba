import TurnRelay.Number.Binary64

/-!
# Spans of time

A span is a whole number of nanoseconds, up to `2 ^ 64` seconds less one nanosecond. Spans do not
overflow: what would be longer is the longest one.

## Main definitions

* `Span`: the spans.
* `Span.double`: twice a span.
* `Span.scale`: a span times a floating-point factor.
-/

namespace TurnRelay

/-- The nanoseconds of a millisecond. -/
def nanosPerMilli : Nat := 1000000

/-- The nanoseconds of a second. -/
def nanosPerSecond : Nat := 1000000000

/-- The longest span: `2 ^ 64 - 1` seconds and `999 999 999` nanoseconds. -/
def maxNanos : Nat := UInt64.size * nanosPerSecond - 1

/-- A span of time. -/
structure Span where
  /-- Its length in nanoseconds. -/
  nanos : Nat
  /-- No span is longer than the longest. -/
  bounded : nanos ≤ maxNanos
  deriving DecidableEq, Repr

namespace Span

/-- A span of so many nanoseconds, or the longest. -/
def ofNanos (n : Nat) : Span := ⟨min n maxNanos, Nat.min_le_right _ _⟩

/-- A span of so many milliseconds. -/
def ofMillis (n : Nat) : Span := ofNanos (n * nanosPerMilli)

/-- A span of so many seconds. -/
def ofSeconds (n : Nat) : Span := ofNanos (n * nanosPerSecond)

/-- The whole milliseconds of a span. -/
def millis (s : Span) : Nat := s.nanos / nanosPerMilli

/-- The shorter of two spans. -/
def shorter (a b : Span) : Span := if a.nanos ≤ b.nanos then a else b

/-- Twice a span, or the longest. -/
def double (s : Span) : Span := ofNanos (2 * s.nanos)

/-- A span in seconds as a floating-point number: whole seconds and fraction are rounded each, and so
is their sum. -/
def seconds (s : Span) : Binary64 :=
  (Binary64.ofNat (s.nanos / nanosPerSecond)).addMagnitudes
    ((Binary64.ofNat (s.nanos % nanosPerSecond)).div (.ofNat nanosPerSecond))

/-- The span nearest to a number of seconds; halfway between two, the one with an even number of
nanoseconds. -/
def nearest (seconds : Binary64) : Span :=
  let (num, den) := seconds.magnitude
  ofNanos (roundHalfEven (num * nanosPerSecond) den)

/-- A span times a factor. -/
def scale (s : Span) (factor : Binary64) : Span := nearest (factor.mul s.seconds)

end Span

end TurnRelay
