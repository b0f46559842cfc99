import NetState.Text.Numeral

/-!
Lengths of time, in whole nanoseconds.

There is a longest span, one nanosecond short of 18446744073709551616 seconds, the first number of
seconds that no word of 64 bits holds; multiplication stops there.
-/

namespace NetState

/-- A length of time in nanoseconds. -/
structure Span where
  nanos : Nat
  nanos_lt : nanos < 18446744073709551616 * 1000000000
  deriving DecidableEq, Repr

namespace Span

/-- The number of nanoseconds that every span stays below. -/
def limit : Nat := 18446744073709551616 * 1000000000

/-- The longest span. -/
def longest : Span := ⟨limit - 1, by decide⟩

/-- The span of that many nanoseconds, or the longest one if there is none. -/
def ofNanos (nanos : Nat) : Span :=
  if h : nanos < 18446744073709551616 * 1000000000 then ⟨nanos, h⟩ else longest

def ofMicros (micros : Nat) : Span :=
  ofNanos (micros * 1000)

def ofMillis (millis : Nat) : Span :=
  ofNanos (millis * 1000000)

def ofSeconds (seconds : Nat) : Span :=
  ofNanos (seconds * 1000000000)

/-- The whole seconds in a span. -/
def seconds (span : Span) : Nat :=
  span.nanos / 1000000000

/-- The nanoseconds past the last whole second. -/
def subsecond (span : Span) : Nat :=
  span.nanos % 1000000000

/-- `count` times a span, at most the longest one. -/
def times (span : Span) (count : Nat) : Span :=
  ofNanos (span.nanos * count)

/-- A fraction in decimal after a point, of `width` digits without the zeros at its end; nothing for
zero. -/
def fraction (width value : Nat) : List Char :=
  let digits := Text.decimal value
  let all := List.replicate (width - digits.length) '0' ++ digits
  let shown := (all.reverse.dropWhile (· == '0')).reverse
  if value = 0 then [] else '.' :: shown

/-- A span in the largest unit of which it holds at least one, seconds to nanoseconds. -/
def text (span : Span) : String :=
  let inUnit (unit width : Nat) (name : String) :=
    String.ofList (Text.decimal (span.nanos / unit) ++ fraction width (span.nanos % unit)) ++ name
  if 1000000000 ≤ span.nanos then inUnit 1000000000 9 "s"
  else if 1000000 ≤ span.nanos then inUnit 1000000 6 "ms"
  else if 1000 ≤ span.nanos then inUnit 1000 3 "µs"
  else inUnit 1 0 "ns"

theorem nanos_ofNanos (nanos : Nat) : (ofNanos nanos).nanos = min nanos longest.nanos := by
  simp only [ofNanos, longest, limit]
  split <;> simp only <;> omega

end Span

end NetState
