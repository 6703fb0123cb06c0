/-!
# Spans of time

Counted in whole nanoseconds. Messages show a span in the largest unit of which it has
at least one, with the fraction that is left.
-/

namespace LanguageHub

structure Duration where
  nanos : Nat
  deriving DecidableEq, Repr, Inhabited

namespace Duration

def ofSeconds (n : Nat) : Duration := ⟨n * 1000000000⟩

def ofMillis (n : Nat) : Duration := ⟨n * 1000000⟩

/-- Whole milliseconds. -/
def millis (d : Duration) : Nat := d.nanos / 1000000

/-- Whole milliseconds as a number of 64 bits. -/
def cappedMillis (d : Duration) : Nat := min d.millis (UInt64.size - 1)

def isZero (d : Duration) : Bool := d.nanos = 0

instance : LE Duration := ⟨fun a b => a.nanos ≤ b.nanos⟩

instance : LT Duration := ⟨fun a b => a.nanos < b.nanos⟩

/-- `part / 10 ^ places` as the digits after a point, without the zeros at their end. -/
def fractionText (part places : Nat) : String :=
  let digits := Nat.toDigits 10 part
  let padded := List.replicate (places - digits.length) '0' ++ digits
  let kept := (padded.reverse.dropWhile (· = '0')).reverse
  if kept.isEmpty then "" else "." ++ String.ofList kept

/-- A count of `10 ^ places` nanoseconds with its fraction. -/
def inUnit (nanos places : Nat) (unit : String) : String :=
  toString (nanos / Nat.pow 10 places) ++ fractionText (nanos % Nat.pow 10 places) places ++ unit

/-- How messages show a span. -/
def shown (d : Duration) : String :=
  if 1000000000 ≤ d.nanos then inUnit d.nanos 9 "s"
  else if 1000000 ≤ d.nanos then inUnit d.nanos 6 "ms"
  else if 1000 ≤ d.nanos then inUnit d.nanos 3 "µs"
  else inUnit d.nanos 0 "ns"

end Duration

end LanguageHub
