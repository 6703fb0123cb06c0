/-!
# Positions in a text

A text has byte offsets, counted in UTF-8, and positions: a line and a column of UTF-16
units. Lines end at a line feed and nothing else. An offset inside a character has no
position; a column past the end of its line stands for the end.
-/

namespace LanguageHub

/-- A line and a column, both from zero. -/
structure Position where
  line : Nat
  character : Nat
  deriving DecidableEq, Repr, Inhabited

/-- From `start` up to and without `stop`. -/
structure Range where
  start : Position
  stop : Position
  deriving DecidableEq, Repr, Inhabited

namespace Text

/-- How many UTF-16 units a character takes. -/
def units (c : Char) : Nat := if c.toNat < 0x10000 then 1 else 2

def unitCount : List Char → Nat
  | [] => 0
  | c :: cs => units c + unitCount cs

/-- The length in bytes. -/
def byteCount : List Char → Nat
  | [] => 0
  | c :: cs => c.utf8Size + byteCount cs

/-! ## Offsets -/

/-- The text before and after byte `n`; nothing when `n` is past the end or inside a
character. -/
def cut? : Nat → List Char → Option (List Char × List Char)
  | 0, cs => some ([], cs)
  | _ + 1, [] => none
  | n + 1, c :: cs =>
    if c.utf8Size ≤ n + 1 then (cut? (n + 1 - c.utf8Size) cs).map fun (a, b) => (c :: a, b)
    else none

/-- The text of `length` bytes from byte `offset` on. -/
def slice? (offset length : Nat) (cs : List Char) : Option (List Char) := do
  let (_, rest) ← cut? offset cs
  let (middle, _) ← cut? length rest
  pure middle

/-! ## Positions -/

/-- The position after a character at `p`. -/
def advance (p : Position) (c : Char) : Position :=
  if c = '\n' then ⟨p.line + 1, 0⟩ else ⟨p.line, p.character + units c⟩

/-- The position after the whole text. -/
def endPosition (cs : List Char) : Position := cs.foldl advance ⟨0, 0⟩

/-- Lines and columns are sent as words of 32 bits. -/
def Fits (p : Position) : Prop := p.line < UInt32.size ∧ p.character < UInt32.size

instance (p : Position) : Decidable (Fits p) := inferInstanceAs (Decidable (_ ∧ _))

/-- The position of a byte offset. -/
def positionAt (cs : List Char) (offset : Nat) : Option Position := do
  let (before, _) ← cut? offset cs
  let p := endPosition before
  if Fits p then some p else none

/-- The bytes up to the first column of at least `wanted` units, or to the end of the line. -/
def columnOffset : Nat → List Char → Nat
  | 0, _ => 0
  | _ + 1, [] => 0
  | wanted + 1, c :: cs =>
    if c = '\n' then 0 else c.utf8Size + columnOffset (wanted + 1 - units c) cs

/-- The byte offset of a position; nothing when the text has no such line. -/
def offsetAt : List Char → Position → Option Nat
  | cs, ⟨0, character⟩ => some (columnOffset character cs)
  | [], ⟨_ + 1, _⟩ => none
  | c :: cs, ⟨line + 1, character⟩ =>
    (offsetAt cs ⟨if c = '\n' then line else line + 1, character⟩).map (c.utf8Size + ·)

end Text

end LanguageHub
