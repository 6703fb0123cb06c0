import LanguageHub.Text.Split

/-!
# Points in time

A timestamp is read from a date, a time and an offset from Greenwich, with blanks allowed
between them, and is written for Greenwich with as many groups of three decimals as it
needs. Dates follow the Gregorian calendar without end in either direction.
-/

namespace LanguageHub

/-- Seconds from the start of 1970 and nanoseconds after them; a leap second has more than
a whole second of them. -/
structure Timestamp where
  seconds : Int
  nanos : Nat
  deriving DecidableEq, Repr, Inhabited

namespace Timestamp

/-! ## Calendar -/

structure Date where
  year : Int
  month : Nat
  day : Nat
  deriving DecidableEq, Repr

def isLeapYear (y : Int) : Bool := y % 4 = 0 ∧ (y % 100 ≠ 0 ∨ y % 400 = 0)

def daysInMonth (y : Int) (m : Nat) : Nat :=
  if m = 2 then (if isLeapYear y then 29 else 28)
  else if m = 4 ∨ m = 6 ∨ m = 9 ∨ m = 11 then 30 else 31

def Date.isValid (d : Date) : Bool :=
  1 ≤ d.month ∧ d.month ≤ 12 ∧ 1 ≤ d.day ∧ d.day ≤ daysInMonth d.year d.month ∧
    -262143 ≤ d.year ∧ d.year ≤ 262142

/-- Days from the start of 1970, with years counted from March. -/
def Date.dayNumber (d : Date) : Int :=
  let y := if d.month ≤ 2 then d.year - 1 else d.year
  let era := y.fdiv 400
  let yearOfEra := y - era * 400
  let month : Int := if d.month ≤ 2 then d.month + 9 else d.month - 3
  let dayOfYear := (153 * month + 2) / 5 + d.day - 1
  let dayOfEra := yearOfEra * 365 + yearOfEra / 4 - yearOfEra / 100 + dayOfYear
  era * 146097 + dayOfEra - 719468

/-- The date of a day counted from the start of 1970. -/
def Date.ofDayNumber (n : Int) : Date :=
  let z := n + 719468
  let era := z.fdiv 146097
  let dayOfEra := z - era * 146097
  let yearOfEra := (dayOfEra - dayOfEra / 1460 + dayOfEra / 36524 - dayOfEra / 146096) / 365
  let dayOfYear := dayOfEra - (365 * yearOfEra + yearOfEra / 4 - yearOfEra / 100)
  let m := (5 * dayOfYear + 2) / 153
  let day := dayOfYear - (153 * m + 2) / 5 + 1
  let month := if m < 10 then m + 3 else m - 9
  let year := yearOfEra + era * 400 + (if month ≤ 2 then 1 else 0)
  ⟨year, month.toNat, day.toNat⟩

/-! ## Reading -/

def trimStart (s : List Char) : List Char := s.dropWhile Text.isBlank

def digitsValue (ds : List Char) : Nat := ds.foldl (fun n c => n * 10 + (c.toNat - '0'.toNat)) 0

/-- A number of at least one and at most `width` digits after blanks. -/
def number? (width : Nat) (s : List Char) : Option (Nat × List Char) :=
  let s := trimStart s
  let digits := (s.take width).takeWhile Text.isDigit
  if digits.isEmpty then none else some (digitsValue digits, s.drop digits.length)

/-- A year of at most four digits, or of any number of them after a sign. -/
def year? (s : List Char) : Option (Int × List Char) :=
  match trimStart s with
  | '-' :: t =>
    if t.head?.any Text.isDigit then (number? t.length t).map fun (n, r) => (-(n : Int), r)
    else none
  | '+' :: t =>
    if t.head?.any Text.isDigit then (number? t.length t).map fun (n, r) => ((n : Int), r) else none
  | t => (number? 4 t).map fun (n, r) => ((n : Int), r)

/-- A separator after blanks. -/
def separator? (c : Char) (s : List Char) : Option (List Char) :=
  match trimStart s with
  | d :: t => if d = c then some t else none
  | [] => none

/-- The decimals of a second in nanoseconds; those beyond the ninth do not count. -/
def fraction? (s : List Char) : Option (Nat × List Char) :=
  match s with
  | '.' :: t =>
    let digits := t.takeWhile Text.isDigit
    if digits.isEmpty then none
    else
      let kept := digits.take 9
      some (digitsValue kept * Nat.pow 10 (9 - kept.length), t.drop digits.length)
  | s => some (0, s)

/-- The sign of an offset. -/
def offsetSign? : List Char → Option (Int × List Char)
  | '+' :: t => some (1, t)
  | '-' :: t => some (-1, t)
  | '−' :: t => some (-1, t)
  | _ => none

/-- The offset from Greenwich in seconds. -/
def offset? (s : List Char) : Option (Int × List Char) :=
  let s := trimStart s
  if Text.lowered (s.take 3) = ['u', 't', 'c'] then some (0, s.drop 3)
  else
    match s with
    | 'Z' :: t => some (0, t)
    | 'z' :: t => some (0, t)
    | s => do
      let (sign, t) ← offsetSign? s
      let hours := t.take 2
      if hours.length ≠ 2 ∨ !hours.all Text.isDigit then none
      let t := (t.drop 2).dropWhile fun c => c = ':' || Text.isBlank c
      let minutes := t.take 2
      if minutes.length ≠ 2 ∨ !minutes.all Text.isDigit ∨ 60 ≤ digitsValue minutes then none
      pure (sign * (digitsValue hours * 3600 + digitsValue minutes * 60), t.drop 2)

/-- Reads a date, a time and an offset. The sixtieth second of a minute is a leap second. -/
def read? (text : String) : Option Timestamp := do
  let (year, s) ← year? text.toList
  let s ← separator? '-' s
  let (month, s) ← number? 2 s
  let s ← separator? '-' s
  let (day, s) ← number? 2 s
  let s ← match s with
    | c :: t => if c = 'T' ∨ c = 't' ∨ c = ' ' then some t else none
    | [] => none
  let (hour, s) ← number? 2 s
  let s ← separator? ':' s
  let (minute, s) ← number? 2 s
  let s ← separator? ':' s
  let (second, s) ← number? 2 s
  let (nanos, s) ← fraction? s
  let (offset, s) ← offset? s
  let date : Date := ⟨year, month, day⟩
  if !(trimStart s).isEmpty ∨ !date.isValid ∨ 24 ≤ hour ∨ 60 ≤ minute ∨ 60 < second ∨
      86400 ≤ offset.natAbs then none
  let leap := second = 60
  let clock : Int := hour * 3600 + minute * 60 + (if leap then 59 else second)
  pure ⟨date.dayNumber * 86400 + clock - offset, if leap then nanos + 1000000000 else nanos⟩

/-! ## Writing -/

def padded (width n : Nat) : String :=
  let digits := Nat.toDigits 10 n
  String.ofList (List.replicate (width - digits.length) '0' ++ digits)

/-- Four digits, with a sign when they do not do. -/
def yearText (y : Int) : String :=
  if 0 ≤ y ∧ y ≤ 9999 then padded 4 y.toNat
  else (if y < 0 then "-" else "+") ++ padded 4 y.natAbs

def fractionText (nanos : Nat) : String :=
  if nanos = 0 then ""
  else if nanos % 1000000 = 0 then "." ++ padded 3 (nanos / 1000000)
  else if nanos % 1000 = 0 then "." ++ padded 6 (nanos / 1000)
  else "." ++ padded 9 nanos

def text (t : Timestamp) : String :=
  let date := Date.ofDayNumber (t.seconds.fdiv 86400)
  let clock := (t.seconds.fmod 86400).toNat
  let leap := 1000000000 ≤ t.nanos
  let second := clock % 60 + (if leap then 1 else 0)
  let nanos := if leap then t.nanos - 1000000000 else t.nanos
  yearText date.year ++ "-" ++ padded 2 date.month ++ "-" ++ padded 2 date.day ++ "T" ++
    padded 2 (clock / 3600) ++ ":" ++ padded 2 (clock / 60 % 60) ++ ":" ++ padded 2 second ++
    fractionText nanos ++ "Z"

end Timestamp

end LanguageHub
