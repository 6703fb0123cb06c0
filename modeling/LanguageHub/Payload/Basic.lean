import LanguageHub.Payload.Schema
import LanguageHub.Text.Buffer

/-!
# Payloads that occur everywhere

Positions, ranges, locations, text edits, commands, marked-up text and diagnostics: the
shapes they are read with, and the values of those that the library works with.
-/

namespace LanguageHub

namespace Schema

abbrev Fields := List (String × Presence × Schema)

def required (name : String) (s : Schema) : String × Presence × Schema := (name, .required, s)

def optional (name : String) (s : Schema) : String × Presence × Schema := (name, .optional, s)

def position : Schema := .record [required "line" unsigned32, required "character" unsigned32]

def range : Schema := .record [required "start" position, required "end" position]

def location : Schema := .record [required "uri" .uri, required "range" range]

def locationLink : Schema := .record [
  optional "originSelectionRange" range,
  required "targetUri" .uri,
  required "targetRange" range,
  required "targetSelectionRange" range]

def textEdit : Schema := .record [required "range" range, required "newText" .string]

def command : Schema := .record [
  required "title" .string,
  required "command" .string,
  optional "arguments" (.list .any)]

def markup : Schema := .record [
  required "kind" (.word ["plaintext", "markdown"]),
  required "value" .string]

/-- Plain text or marked-up text. -/
def documentation : Schema := .oneOf [.string, markup]

def numberOrString : Schema := .oneOf [int32, .string]

def diagnostic : Schema := .record [
  required "range" range,
  optional "severity" int32,
  optional "code" numberOrString,
  optional "codeDescription" (.record [required "href" .uri]),
  optional "source" .string,
  required "message" .string,
  optional "relatedInformation"
    (.list (.record [required "location" location, required "message" .string])),
  optional "tags" (.list int32),
  optional "data" .any]

def publishedDiagnostics : Schema := .record [
  required "uri" .uri,
  required "diagnostics" (.list diagnostic),
  optional "version" int32]

def configurationParams : Schema := .record [
  required "items" (.list (.record [optional "scopeUri" .uri, optional "section" .string]))]

def formattingOptions : Schema := .openObject [
  required "tabSize" unsigned32,
  required "insertSpaces" .bool,
  optional "trimTrailingWhitespace" .bool,
  optional "insertFinalNewline" .bool,
  optional "trimFinalNewlines" .bool]
  (.oneOf [.bool, int32, .string])

end Schema

/-! ## Values -/

def Position.toJson (p : Position) : Json :=
  .mkObj [("line", .ofNat p.line), ("character", .ofNat p.character)]

def Range.toJson (r : Range) : Json :=
  .mkObj [("start", r.start.toJson), ("end", r.stop.toJson)]

/-- A position in the form that its schema gives it. -/
def Position.ofJson? (v : Json) : Option Position := do
  let v ← Schema.position.read? v
  let line ← (v.get? "line").bind Json.nat?
  let character ← (v.get? "character").bind Json.nat?
  pure ⟨line, character⟩

def Range.ofJson? (v : Json) : Option Range := do
  let v ← Schema.range.read? v
  let start ← (v.get? "start").bind Position.ofJson?
  let stop ← (v.get? "end").bind Position.ofJson?
  pure ⟨start, stop⟩

def TextEdit.toJson (e : TextEdit) : Json :=
  .mkObj [("range", e.range.toJson), ("newText", .str e.newText)]

def TextEdit.ofJson? (v : Json) : Option TextEdit := do
  let v ← Schema.textEdit.read? v
  let range ← (v.get? "range").bind Range.ofJson?
  let newText ← (v.get? "newText").bind Json.str?
  pure ⟨range, newText⟩

/-- A range in a document. -/
structure Location where
  uri : String
  range : Range
  deriving DecidableEq, Repr, Inhabited

def Location.toJson (l : Location) : Json :=
  .mkObj [("uri", .str l.uri), ("range", l.range.toJson)]

def Location.ofJson? (v : Json) : Option Location := do
  let v ← Schema.location.read? v
  let uri ← (v.get? "uri").bind Json.str?
  let range ← (v.get? "range").bind Range.ofJson?
  pure ⟨uri, range⟩

/-- The place that a link leads to: its target and the part of it to select. -/
def Location.ofLink? (v : Json) : Option Location := do
  let v ← Schema.locationLink.read? v
  let uri ← (v.get? "targetUri").bind Json.str?
  let range ← (v.get? "targetSelectionRange").bind Range.ofJson?
  pure ⟨uri, range⟩

end LanguageHub
