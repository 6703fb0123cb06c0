import LanguageHub.Json.Basic
import LanguageHub.Text.Split
import LanguageHub.Text.Position
import LanguageHub.Wire.Frame

/-!
# The mock server's documents

The mock server counts columns in characters when it applies changes, and in bytes when
it looks for words. A word is a run of ASCII letters, digits and underscores. A text can only
be cut between characters: the server breaks when it tries to cut one anywhere else.
-/

namespace LanguageHub.MockText

/-- What breaks the server in the middle of its work. -/
inductive Fault where
  /-- A byte that the line does not have. -/
  | index
  /-- A cut inside a character or past the end. -/
  | cut
  /-- A search that stays where it is and so never ends. -/
  | endless
  deriving DecidableEq, Repr

/-! ## Changes -/

/-- The bytes up to the column in characters, or to the end of the line. -/
def columnOffset : Nat → List Char → Nat
  | 0, _ => 0
  | _ + 1, [] => 0
  | column + 1, c :: cs => if c = '\n' then 0 else c.utf8Size + columnOffset column cs

/-- The byte offset of a line and a column in characters; past the last line, the end. -/
def offsetOf : List Char → Nat → Nat → Nat
  | cs, 0, column => columnOffset column cs
  | [], _ + 1, _ => 0
  | c :: cs, line + 1, column =>
    c.utf8Size + offsetOf cs (if c = '\n' then line else line + 1) column

/-- Replaces the bytes from `start` to `stop`, unless they are in the wrong order. -/
def replace (text : List Char) (start stop : Nat) (newText : List Char) : List Char :=
  match Text.cut? start text, Text.cut? stop text with
  | some (before, _), some (_, after) =>
    if start ≤ stop then before ++ newText ++ after else text
  | _, _ => text

/-- The offset that an end of a range names. -/
def rangeEnd? (text : List Char) (range : Json) (name : String) : Option Nat := do
  let p ← range.get? name
  let line ← (p.get? "line").bind Json.nat?
  let column ← (p.get? "character").bind Json.nat?
  pure (offsetOf text line column)

/-- The text after a change; one without a range is the whole new text. -/
def applyChange (text : List Char) (change : Json) : List Char :=
  let newText := (((change.get? "text").bind Json.str?).getD "").toList
  match change.get? "range" with
  | none => newText
  | some range =>
    match rangeEnd? text range "start", rangeEnd? text range "end" with
    | some start, some stop => replace text start stop newText
    | _, _ => text

/-- The change replaces what is between two places in their order, and a place is inside a
character or past the end. -/
def cutsInside (text : List Char) (change : Json) : Bool :=
  match change.get? "range" with
  | none => false
  | some range =>
    match rangeEnd? text range "start", rangeEnd? text range "end" with
    | some start, some stop =>
      start ≤ stop && ((Text.cut? start text).isNone || (Text.cut? stop text).isNone)
    | _, _ => false

/-- The text after changes that are made one after another. -/
def applyChanges (text : List Char) (changes : List Json) : Except Fault (List Char) :=
  changes.foldlM (fun text change =>
    if cutsInside text change then .error .cut else .ok (applyChange text change)) text

/-! ## Words -/

def isWordByte (b : UInt8) : Bool :=
  (48 ≤ b && b ≤ 57) || (65 ≤ b && b ≤ 90) || (97 ≤ b && b ≤ 122) || b == 95

def byteAt (bytes : Frame.Bytes) (i : Nat) : Except Fault UInt8 :=
  match bytes[i]? with
  | some b => .ok b
  | none => .error .index

/-- The part of a line from byte `start` to byte `stop`. -/
def cutOut (line : List Char) (start stop : Nat) : Except Fault (List Char) :=
  if start ≤ stop then
    match Text.slice? start (stop - start) line with
    | some part => .ok part
    | none => .error .cut
  else .error .cut

/-- Looks from byte `i` backwards for the start of its word: one past the first byte that is
of no word. -/
def wordStart (bytes : Frame.Bytes) : Nat → Except Fault Nat
  | 0 => do
    let b ← byteAt bytes 0
    if isWordByte b then pure 0 else pure 1
  | i + 1 => do
    let b ← byteAt bytes (i + 1)
    if isWordByte b then wordStart bytes i else pure (i + 2)

/-- Looks from byte `i` forwards for the end of its word among `count` bytes: the first byte
that is of no word. -/
def wordStop (bytes : Frame.Bytes) : Nat → Nat → Except Fault Nat
  | 0, i => pure i
  | count + 1, i => do
    let b ← byteAt bytes i
    if isWordByte b then wordStop bytes count (i + 1) else pure i

/-- The word that covers a byte of a line. -/
def wordIn (line : List Char) (column : Nat) : Except Fault (Option (List Char)) :=
  let bytes := Frame.bytesOf line
  if bytes.length ≤ column then pure none
  else do
    let start ← wordStart bytes column
    let stop ← wordStop bytes (bytes.length - column) column
    if stop ≤ start then pure none
    else
      let word ← cutOut line start stop
      pure (some word)

/-- The word at a line and a column in bytes. -/
def extractWord (text : List Char) (line column : Nat) : Except Fault (Option (List Char)) :=
  match (Text.lines text)[line]? with
  | none => pure none
  | some line => wordIn line column

/-- Where some bytes first occur in others. -/
def find? (pattern : Frame.Bytes) : Frame.Bytes → Option Nat
  | [] => if pattern.isEmpty then some 0 else none
  | b :: rest =>
    if pattern.isPrefixOf (b :: rest) then some 0 else (find? pattern rest).map (· + 1)

theorem le_of_cutOut {line part : List Char} {start stop : Nat}
    (h : cutOut line start stop = .ok part) : start ≤ stop := by
  unfold cutOut at h
  split at h
  · assumption
  · cases h

/-- The columns where a word occurs in a line from byte `start` on. After an occurrence the
search goes on behind it. -/
def occurrencesFrom (word line : List Char) (start : Nat) : Except Fault (List Nat) :=
  match h : cutOut line start (Text.byteCount line) with
  | .error fault => .error fault
  | .ok rest =>
    match find? (Frame.bytesOf word) (Frame.bytesOf rest) with
    | none => .ok []
    | some skipped =>
      let column := start + skipped
      if start < column + Text.byteCount word then
        have := le_of_cutOut h
        (occurrencesFrom word line (column + Text.byteCount word)).map (column :: ·)
      else .error .endless
termination_by Text.byteCount line + 1 - start

/-- The line and the columns of every occurrence of a word. -/
def occurrences (text word : List Char) : Except Fault (List (Nat × Nat × Nat)) := do
  let found ← (Text.lines text).zipIdx.mapM fun (line, i) => do
    let columns ← occurrencesFrom word line 0
    pure (columns.map fun column => (i, column, column + Text.byteCount word))
  pure found.flatten

/-- The ways in which a word is defined. -/
def definitionForms (word : List Char) : List (List Char) :=
  ["def ", "fn ", "let "].map fun keyword => keyword.toList ++ word

/-- The first place where a line has one of some forms, tried in their order. -/
def firstForm (forms : List (List Char)) (line : List Char) : Option (Nat × Nat) :=
  forms.findSome? fun form =>
    (find? (Frame.bytesOf form) (Frame.bytesOf line)).map fun c => (c, c + Text.byteCount form)

/-- The line and the columns where a word is first defined. -/
def definition (text word : List Char) : Option (Nat × Nat × Nat) :=
  (Text.lines text).zipIdx.findSome? fun (line, i) =>
    (firstForm (definitionForms word) line).map fun (start, stop) => (i, start, stop)

end LanguageHub.MockText
