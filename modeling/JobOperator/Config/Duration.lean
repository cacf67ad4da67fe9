import JobOperator.Text.Blank
import JobOperator.Text.Decimal

/-!
Spans of time. In a text, a span is a sum of amounts, each a number and a unit, and blanks do not
count.
-/

namespace JobOperator

/-- A span of time, in nanoseconds. Its whole seconds fit in 64 bits. -/
structure Duration where
  nanos : Nat
  inRange : nanos < UInt64.size * 1000000000 := by decide
  deriving DecidableEq, Repr

namespace Duration

/-- Nanoseconds in a second. -/
def nanosPerSecond : Nat := 1000000000

/-- A span of so many nanoseconds, if it is in range. -/
def ofNanos? (nanos : Nat) : Option Duration :=
  if inRange : nanos < UInt64.size * 1000000000 then some { nanos, inRange } else none

/-- The units, each with its nanoseconds. A year is 365.2422 days, to the nearest second. -/
def units : List (String × Nat) :=
  [ ("ns", 1), ("us", 1000), ("ms", 1000000), ("s", nanosPerSecond), ("m", 60 * nanosPerSecond),
    ("h", 3600 * nanosPerSecond), ("d", 86400 * nanosPerSecond), ("w", 604800 * nanosPerSecond),
    ("y", 31556926 * nanosPerSecond) ]

/-- The nanoseconds of an amount. Its number fits in 64 bits. -/
def amount? (digits unit : List Char) : Option Nat := do
  let number := Decimal.value digits
  if digits.isEmpty ∨ UInt64.size ≤ number then none
  let size ← units.lookup (String.ofList unit)
  return number * size

/-- The nanoseconds of the amounts of a text without blanks. `digits` and `unit` are what has been
read of the first amount, last first. -/
def sum? (digits unit : List Char) : List Char → Option Nat
  | [] => amount? digits.reverse unit.reverse
  | c :: rest =>
    if !c.isDigit then sum? digits (c :: unit) rest
    else if unit.isEmpty then sum? (c :: digits) [] rest
    else do return (← amount? digits.reverse unit.reverse) + (← sum? [c] [] rest)

/-- The span that a text denotes. -/
def ofText? (text : String) : Option Duration := do
  ofNanos? (← sum? [] [] (text.toList.filter (!Text.isBlank ·)))

/-- A span as seconds, with nine digits after the point. -/
def text (duration : Duration) : String :=
  String.ofList (Decimal.ofNat (duration.nanos / nanosPerSecond) ++
    '.' :: Decimal.padded 9 (duration.nanos % nanosPerSecond))

end Duration

end JobOperator
