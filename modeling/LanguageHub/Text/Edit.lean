import LanguageHub.Text.Position
import LanguageHub.Text.Quoted

/-!
# Edits and why they are refused
-/

namespace LanguageHub

/-- Replaces the `oldLength` bytes at `offset` by `newText`. -/
structure Edit where
  offset : Nat
  oldLength : Nat
  newText : String
  deriving DecidableEq, Repr, Inhabited

namespace Edit

def insertion (offset : Nat) (text : String) : Edit := ⟨offset, 0, text⟩

def deletion (offset length : Nat) : Edit := ⟨offset, length, ""⟩

/-- How messages show an edit. -/
def shown (e : Edit) : String :=
  s!"DocumentEdit \x7b offset: {e.offset}, old_len: {e.oldLength}, " ++
    s!"new_text: {Text.quoted e.newText} \x7d"

end Edit

def Position.shown (p : Position) : String :=
  s!"Position \x7b line: {p.line}, character: {p.character} \x7d"

def Range.shown (r : Range) : String :=
  s!"Range \x7b start: {r.start.shown}, end: {r.stop.shown} \x7d"

/-- Why an edit cannot be made. -/
inductive EditFault where
  /-- It reaches past the end of the text. -/
  | exceeds (edit : Edit)
  /-- One of its ends is inside a character. -/
  | splitsCharacter (edit : Edit)
  /-- The text has no such line. -/
  | rangeOutside (range : Range)
  /-- It ends before it starts. -/
  | rangeInverted (range : Range)
  /-- Two edits change the same text. -/
  | overlapping
  deriving DecidableEq, Repr

def EditFault.message : EditFault → String
  | exceeds e => s!"{e.shown} exceeds document"
  | splitsCharacter e => s!"{e.shown} splits a character"
  | rangeOutside r => s!"range {r.shown} is outside the document"
  | rangeInverted r => s!"range {r.shown} is inverted"
  | overlapping => "overlapping edits"

end LanguageHub
