import LanguageHub.Text.Edit

/-!
# Buffers

A buffer is the editor's text of a document. An edit replaces a run of its bytes and is
refused when the run leaves the text or cuts a character.
-/

namespace LanguageHub

structure Buffer where
  text : String
  deriving DecidableEq, Repr, Inhabited

namespace Buffer

def empty : Buffer := ⟨""⟩

/-- The length in bytes. -/
def byteLength (b : Buffer) : Nat := Text.byteCount b.text.toList

def isEmpty (b : Buffer) : Bool := b.text.toList.isEmpty

def positionAt (b : Buffer) (offset : Nat) : Option Position := Text.positionAt b.text.toList offset

def offsetAt (b : Buffer) (p : Position) : Option Nat := Text.offsetAt b.text.toList p

/-- The bytes that an edit takes out, when its run is within the text. -/
def removed? (b : Buffer) (e : Edit) : Option (List Char) :=
  Text.slice? e.offset e.oldLength b.text.toList

/-- The buffer with the edit's run replaced. -/
def apply (b : Buffer) (e : Edit) : Except EditFault Buffer :=
  if b.byteLength < e.offset + e.oldLength then .error (.exceeds e)
  else
    match Text.cut? e.offset b.text.toList,
      Text.cut? (e.offset + e.oldLength) b.text.toList with
    | some (before, _), some (_, after) =>
      .ok ⟨String.ofList (before ++ e.newText.toList ++ after)⟩
    | _, _ => .error (.splitsCharacter e)

end Buffer

/-!
## Edits made at once

A server's text edits all refer to the text before any of them. They are ordered by where
they start and end, insertions at one place in the order they came, and must not overlap.
-/

/-- A range to replace and its new text. -/
structure TextEdit where
  range : Range
  newText : String
  deriving DecidableEq, Repr, Inhabited

/-- The bytes from `start` to `stop` and what replaces them. -/
structure Span where
  start : Nat
  stop : Nat
  newText : String
  deriving DecidableEq, Repr

namespace Span

/-- The bytes of an edit's range in a text. -/
def ofTextEdit (b : Buffer) (e : TextEdit) : Except EditFault Span :=
  match b.offsetAt e.range.start, b.offsetAt e.range.stop with
  | some start, some stop =>
    if stop < start then .error (.rangeInverted e.range) else .ok ⟨start, stop, e.newText⟩
  | _, _ => .error (.rangeOutside e.range)

/-- The order of replacement: by start, then by end. -/
def le (a b : Span) : Bool := a.start < b.start || (a.start == b.start && a.stop ≤ b.stop)

/-- The text from byte `cursor` on, whose characters are `rest`, with ordered spans replaced. -/
def splice : Nat → List Char → List Span → Except EditFault (List Char)
  | _, rest, [] => .ok rest
  | cursor, rest, s :: spans =>
    if s.start < cursor then .error .overlapping
    else
      let (kept, tail) := (Text.cut? (s.start - cursor) rest).getD ([], rest)
      let after := ((Text.cut? (s.stop - s.start) tail).map (·.2)).getD tail
      (splice s.stop after spans).map fun out => kept ++ s.newText.toList ++ out

end Span

/-- The text with all the edits made. -/
def Buffer.applyAll (b : Buffer) (edits : List TextEdit) : Except EditFault String := do
  let spans ← edits.mapM (Span.ofTextEdit b)
  let out ← Span.splice 0 b.text.toList (spans.mergeSort Span.le)
  pure (String.ofList out)

end LanguageHub
