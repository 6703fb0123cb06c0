/-!
# Double-precision numbers as exact fractions

A finite double is `mantissa * 2 ^ exponent`, so its shortest decimal text can be
found with natural numbers alone. `shortest` gives the fewest significant digits
that still read back as the same double, nearest to its value.
-/

namespace LanguageHub.Binary64

/-- The magnitude of a finite double: `mantissa * 2 ^ (scale - 1074)`. -/
structure Magnitude where
  mantissa : Nat
  scale : Nat
  deriving DecidableEq, Repr

/-- The number of mantissa bits that are stored. -/
def fractionBits : Nat := 52

def exponentField (bits : UInt64) : Nat := bits.toNat / Nat.pow 2 fractionBits % Nat.pow 2 11

def fractionField (bits : UInt64) : Nat := bits.toNat % Nat.pow 2 fractionBits

def isNegative (bits : UInt64) : Bool := Nat.pow 2 63 ≤ bits.toNat

/-- Neither an infinity nor a NaN. -/
def isFinite (bits : UInt64) : Bool := exponentField bits ≠ 2047

def isZero (bits : UInt64) : Bool := bits.toNat % Nat.pow 2 63 = 0

def magnitude (bits : UInt64) : Magnitude :=
  if exponentField bits = 0 then ⟨fractionField bits, 0⟩
  else ⟨Nat.pow 2 fractionBits + fractionField bits, exponentField bits - 1⟩

/-- Two doubles are equal as numbers: the two zeros count as one. -/
def sameNumber (a b : UInt64) : Bool := a == b || (isZero a && isZero b)

/-! ## The decimal grid -/

/-- The reals that round to one double, as `low` and `high` over `den`, around `value`.
The ends belong to it exactly when `closed`. -/
structure Interval where
  low : Nat
  value : Nat
  high : Nat
  den : Nat
  closed : Bool

/-- The interval of a nonzero magnitude. Below a power of two the gap is half as wide. -/
def interval (m : Magnitude) : Interval :=
  let lowGap := if m.mantissa = Nat.pow 2 fractionBits ∧ 0 < m.scale then 1 else 2
  ⟨(4 * m.mantissa - lowGap) * Nat.pow 2 m.scale, 4 * m.mantissa * Nat.pow 2 m.scale,
    (4 * m.mantissa + 2) * Nat.pow 2 m.scale, Nat.pow 2 1076, m.mantissa % 2 = 0⟩

/-- `num / den` rounds to the double of the interval, for `num` over the same denominator. -/
def Interval.contains (i : Interval) (num : Nat) : Bool :=
  if i.closed then i.low ≤ num ∧ num ≤ i.high else i.low < num ∧ num < i.high

/-- A decimal `digits * 10 ^ exponent`. -/
structure Decimal where
  digits : Nat
  exponent : Int
  deriving DecidableEq, Repr

/-- The interval with everything multiplied so that a grid of step `10 ^ e` has integer
points: the step is returned beside it. -/
def Interval.onGrid (i : Interval) (e : Int) : Interval × Nat :=
  if 0 ≤ e then (i, i.den * Nat.pow 10 e.toNat)
  else
    let k := Nat.pow 10 (-e).toNat
    (⟨i.low * k, i.value * k, i.high * k, i.den, i.closed⟩, i.den)

/-- The grid point of step `10 ^ e` nearest to the value, among its two neighbours that
lie in the interval; the even one on a tie. -/
def Interval.gridPoint? (i : Interval) (e : Int) : Option Decimal :=
  let (j, step) := i.onGrid e
  let below := j.value / step
  let above := below + 1
  let lowHit := below ≠ 0 && j.contains (below * step)
  let highHit := j.contains (above * step)
  let toLow := j.value - below * step
  let toHigh := above * step - j.value
  if lowHit && (!highHit || toLow < toHigh || (toLow = toHigh && below % 2 = 0)) then
    some ⟨below, e⟩
  else if highHit then some ⟨above, e⟩
  else none

/-- The decimal exponent of the leading digit of `num / den`, by search from `e` downwards. -/
def leadingExponent (num den : Nat) : Nat → Int → Int
  | 0, e => e
  | fuel + 1, e =>
    let reached :=
      if 0 ≤ e then den * Nat.pow 10 e.toNat ≤ num else den ≤ num * Nat.pow 10 (-e).toNat
    if reached then e else leadingExponent num den fuel (e - 1)

/-- The first of the grids of `1, 2, …` digits that meets the interval. -/
def firstGrid (i : Interval) (lead : Int) : Nat → Nat → Decimal
  | 0, _ => ⟨i.value / i.den, 0⟩
  | fuel + 1, n =>
    match i.gridPoint? (lead - n) with
    | some d => d
    | none => firstGrid i lead fuel (n + 1)

/-- The shortest decimal that reads back as this magnitude; its last digit is not zero
unless it is zero itself. -/
def shortest (m : Magnitude) : Decimal :=
  if m.mantissa = 0 then ⟨0, 0⟩
  else
    let i := interval m
    let lead := leadingExponent i.value i.den 640 309
    let d := firstGrid i lead 18 0
    if d.digits = 10 then ⟨1, d.exponent + 1⟩ else d

end LanguageHub.Binary64
