/-!
# Pieces of a text
-/

namespace LanguageHub.Text

/-- The pieces between the separators, one more than there are separators. -/
def splitOn (separator : Char) : List Char → List (List Char)
  | [] => [[]]
  | c :: rest =>
    if c = separator then [] :: splitOn separator rest
    else
      match splitOn separator rest with
      | [] => [[c]]
      | piece :: pieces => (c :: piece) :: pieces

/-- The text before and after the first separator. -/
def splitOnce? (separator : Char) (s : List Char) : Option (List Char × List Char) :=
  match s.dropWhile (· ≠ separator) with
  | [] => none
  | _ :: after => some (s.takeWhile (· ≠ separator), after)

/-- The pieces without a carriage return at the end of any but the last; a last piece
without characters does not count. -/
def stripReturns : List (List Char) → List (List Char)
  | [] => []
  | [last] => if last.isEmpty then [] else [last]
  | piece :: rest =>
    (if piece.getLast? = some '\r' then piece.dropLast else piece) :: stripReturns rest

/-- The lines of a text, ended by a line feed or by a carriage return and a line feed. -/
def lines (s : List Char) : List (List Char) := stripReturns (splitOn '\n' s)

/-- Characters that count as blank in any script. -/
def isBlank (c : Char) : Bool :=
  let n := c.toNat
  (9 ≤ n ∧ n ≤ 13) ∨ n = 32 ∨ n = 0x85 ∨ n = 0xa0 ∨ n = 0x1680 ∨ (0x2000 ≤ n ∧ n ≤ 0x200a) ∨
    n = 0x2028 ∨ n = 0x2029 ∨ n = 0x202f ∨ n = 0x205f ∨ n = 0x3000

/-- The text without blanks at its ends. -/
def trim (s : List Char) : List Char :=
  ((s.dropWhile isBlank).reverse.dropWhile isBlank).reverse

/-- The capital ASCII letters made small. -/
def lowered (s : List Char) : List Char := s.map Char.toLower

def isDigit (c : Char) : Bool := '0' ≤ c ∧ c ≤ '9'

/-- A decimal number of any size, with an optional plus sign. -/
def natural? (s : List Char) : Option Nat :=
  let digits := match s with
    | '+' :: t => t
    | t => t
  if digits.isEmpty ∨ !digits.all isDigit then none
  else some (digits.foldl (fun n c => n * 10 + (c.toNat - '0'.toNat)) 0)

/-- A decimal number with an optional sign. -/
def integer? : List Char → Option Int
  | '-' :: t => if t.head? = some '+' then none else (natural? t).map fun n => -(n : Int)
  | t => (natural? t).map Int.ofNat

end LanguageHub.Text
