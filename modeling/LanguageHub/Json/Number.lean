import LanguageHub.Json.Basic

/-!
# Numerals

A numeral is read into its leading digits, as many as fit in 64 bits, and a power of
ten. A numeral with neither point nor exponent is an integer while it fits in 64 bits;
everything else is a double, got by one multiplication or division by a power of ten.
-/

namespace LanguageHub.Numeral

def maxUnsigned : Nat := UInt64.size - 1

def isDigit (c : Char) : Bool := '0' ≤ c ∧ c ≤ '9'

def digitValue (c : Char) : Nat := c.toNat - '0'.toNat

/-- The value of decimal digits, most significant first. -/
def ofDigits (digits : List Char) : Nat := digits.foldl (fun n c => n * 10 + digitValue c) 0

/-- Leading digits and the power of ten they count. -/
structure Parts where
  significand : Nat
  exponent : Int
  deriving DecidableEq, Repr

/-- Whole digits: those after the last one that fits only raise the power. -/
def wholeDigits : List Char → Parts → Parts
  | [], p => p
  | c :: cs, p =>
    let next := p.significand * 10 + digitValue c
    if next ≤ maxUnsigned then wholeDigits cs ⟨next, p.exponent⟩
    else ⟨p.significand, p.exponent + (c :: cs).length⟩

/-- Digits after the point: the first that does not fit ends them. -/
def fractionDigits : List Char → Parts → Parts
  | [], p => p
  | c :: cs, p =>
    let next := p.significand * 10 + digitValue c
    if next ≤ maxUnsigned then fractionDigits cs ⟨next, p.exponent - 1⟩ else p

/-! ## Doubles -/

/-- `value * 10 ^ exponent` by one operation, after bringing a very small power in range.
Nothing when the result is too large. -/
def scaled? : Nat → Float → Int → Option Float
  | 0, value, _ => some value
  | fuel + 1, value, exponent =>
    if exponent.natAbs ≤ 308 then
      let power := Float.ofScientific 1 false exponent.natAbs
      if 0 ≤ exponent then
        let product := value * power
        if product.isInf then none else some product
      else some (value / power)
    else if value == 0.0 then some value
    else if 0 ≤ exponent then none
    else scaled? fuel (value / Float.ofScientific 1 false 308) (exponent + 308)

/-- Five steps of `10 ^ 308` turn every significand of 64 bits into zero. -/
def double? (negative : Bool) (p : Parts) : Option JsonNumber :=
  (scaled? 5 (Float.ofNat p.significand) p.exponent).map fun x =>
    .double (if negative then -x else x).toBits

/-- The largest power that can be written in an exponent. -/
def maxExponent : Nat := Nat.pow 2 31 - 1

/-- The double with a written exponent; one that is too large gives zero or nothing. -/
def withExponent? (negative : Bool) (p : Parts) (down : Bool) (digits : List Char) :
    Option JsonNumber :=
  let e := ofDigits digits
  if maxExponent < e then
    if p.significand ≠ 0 ∧ !down then none
    else some (.double (if negative then -0.0 else 0.0 : Float).toBits)
  else double? negative ⟨p.significand, if down then p.exponent - e else p.exponent + e⟩

/-! ## Integers -/

/-- An integer of 64 bits; minus zero and whatever is out of range become doubles. -/
def integer? (negative : Bool) (p : Parts) : Option JsonNumber :=
  if p.exponent ≠ 0 then double? negative p
  else if !negative then some (.int p.significand)
  else if p.significand = 0 ∨ Nat.pow 2 63 < p.significand then double? true p
  else some (.int (-p.significand))

/-! ## Reading -/

/-- Whether an exponent is negative, and its text without the sign. -/
def exponentSign : List Char → Bool × List Char
  | '-' :: t => (true, t)
  | '+' :: t => (false, t)
  | t => (false, t)

/-- The digits after `e` or `E` with their sign; at least one is required. -/
def exponentPart? (s : List Char) : Option (Bool × List Char × List Char) :=
  let (down, t) := exponentSign s
  let digits := t.takeWhile isDigit
  if digits.isEmpty then none else some (down, digits, t.dropWhile isDigit)

/-- What follows the digits: an exponent, or the end of the numeral. -/
def finish? (negative : Bool) (p : Parts) (plain : Option JsonNumber) (s : List Char) :
    Option (JsonNumber × List Char) :=
  match s with
  | c :: t =>
    if c = 'e' ∨ c = 'E' then do
      let (down, digits, rest) ← exponentPart? t
      let n ← withExponent? negative p down digits
      pure (n, rest)
    else plain.map (·, s)
  | [] => plain.map (·, s)

/-- A numeral after its sign, and what is left. A leading zero stands alone. -/
def unsigned? (negative : Bool) (s : List Char) : Option (JsonNumber × List Char) :=
  let whole := s.takeWhile isDigit
  let rest := s.dropWhile isDigit
  if whole.isEmpty ∨ (whole.head? = some '0' ∧ 1 < whole.length) then none
  else
    let p := wholeDigits whole ⟨0, 0⟩
    match rest with
    | '.' :: t =>
      let fraction := t.takeWhile isDigit
      if fraction.isEmpty then none
      else
        let q := fractionDigits fraction p
        finish? negative q (double? negative q) (t.dropWhile isDigit)
    | _ => finish? negative p (integer? negative p) rest

def number? : List Char → Option (JsonNumber × List Char)
  | '-' :: s => unsigned? true s
  | s => unsigned? false s

/-! ## What is left is shorter -/

theorem length_exponentSign (s : List Char) : (exponentSign s).2.length ≤ s.length := by
  unfold exponentSign
  split <;> simp

theorem length_exponentPart? {s : List Char} {down digits rest}
    (h : exponentPart? s = some (down, digits, rest)) : rest.length ≤ s.length := by
  simp only [exponentPart?, Option.ite_none_left_eq_some, Option.some.injEq, Prod.mk.injEq] at h
  obtain ⟨_, _, _, rfl⟩ := h
  exact Nat.le_trans ((List.dropWhile_suffix isDigit).length_le) (length_exponentSign s)

theorem length_finish? {negative p plain s n rest}
    (h : finish? negative p plain s = some (n, rest)) : rest.length ≤ s.length := by
  unfold finish? at h
  split at h
  · split at h
    · simp only [Option.bind_eq_bind, Option.bind_eq_some_iff, Option.pure_def,
        Option.some.injEq, Prod.mk.injEq] at h
      obtain ⟨⟨down, digits, r⟩, he, _, _, _, rfl⟩ := h
      exact Nat.le_succ_of_le (length_exponentPart? he)
    · obtain ⟨_, _, h⟩ := Option.map_eq_some_iff.1 h
      cases h
      exact Nat.le_refl _
  · obtain ⟨_, _, h⟩ := Option.map_eq_some_iff.1 h
    cases h
    exact Nat.le_refl _

theorem length_unsigned? {negative s n rest}
    (h : unsigned? negative s = some (n, rest)) : rest.length < s.length := by
  unfold unsigned? at h
  simp only [Option.ite_none_left_eq_some] at h
  obtain ⟨hw, h⟩ := h
  have whole : s.takeWhile isDigit ≠ [] := fun e => hw (Or.inl (by simp [e]))
  have total : (s.takeWhile isDigit).length + (s.dropWhile isDigit).length = s.length := by
    rw [← List.length_append, List.takeWhile_append_dropWhile]
  have := List.length_pos_iff.2 whole
  split at h
  case _ t ht =>
    simp only [Option.ite_none_left_eq_some] at h
    have := length_finish? h.2
    have := (List.dropWhile_suffix isDigit (l := t)).length_le
    rw [ht, List.length_cons] at total
    omega
  case _ =>
    have := length_finish? h
    omega

/-- A numeral takes at least one character. -/
theorem length_number? {s n rest} (h : number? s = some (n, rest)) : rest.length < s.length := by
  unfold number? at h
  split at h
  · exact Nat.lt_succ_of_lt (length_unsigned? h)
  · exact length_unsigned? h

end LanguageHub.Numeral
