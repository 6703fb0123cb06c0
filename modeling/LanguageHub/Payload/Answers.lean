import LanguageHub.Payload.Basic

/-!
# Answers to feature requests

The shape of each answer, and the items that it holds.
-/

namespace LanguageHub.Schema

/-- Plain text or code of a language. -/
def markedString : Schema := .oneOf [
  .string,
  .record [required "language" .string, required "value" .string]]

def hover : Schema := .record [
  required "contents" (.oneOf [markedString, .list markedString, markup]),
  optional "range" range]

/-- What a hover request must say. -/
def hoverParams : Schema := .object [
  required "textDocument" (.record [required "uri" .uri]),
  required "position" position,
  optional "workDoneToken" numberOrString]

def completionEdit : Schema := .oneOf [
  textEdit,
  .record [required "newText" .string, required "insert" range, required "replace" range]]

def completionItem : Schema := .record [
  required "label" .string,
  optional "labelDetails" (.record [optional "detail" .string, optional "description" .string]),
  optional "kind" int32,
  optional "detail" .string,
  optional "documentation" documentation,
  optional "deprecated" .bool,
  optional "preselect" .bool,
  optional "sortText" .string,
  optional "filterText" .string,
  optional "insertText" .string,
  optional "insertTextFormat" int32,
  optional "insertTextMode" int32,
  optional "textEdit" completionEdit,
  optional "additionalTextEdits" (.list textEdit),
  optional "command" command,
  optional "commitCharacters" (.list .string),
  optional "data" .any,
  optional "tags" (.list int32)]

def completionList : Schema := .record [
  required "isIncomplete" .bool,
  required "items" (.list completionItem)]

/-- A list of items or a list with a note whether it is complete. -/
def completions : Schema := .oneOf [.list completionItem, completionList]

def parameterInformation : Schema := .record [
  required "label" (.oneOf [.string, .tuple [unsigned32, unsigned32]]),
  optional "documentation" documentation]

def signatureInformation : Schema := .record [
  required "label" .string,
  optional "documentation" documentation,
  optional "parameters" (.list parameterInformation),
  optional "activeParameter" unsigned32]

def signatureHelp : Schema := .record [
  required "signatures" (.list signatureInformation),
  optional "activeSignature" unsigned32,
  optional "activeParameter" unsigned32]

def documentHighlight : Schema := .record [required "range" range, optional "kind" int32]

def documentLink : Schema := .record [
  required "range" range,
  optional "target" .uri,
  optional "tooltip" .string,
  optional "data" .any]

def foldingRange : Schema := .record [
  required "startLine" unsigned32,
  optional "startCharacter" unsigned32,
  required "endLine" unsigned32,
  optional "endCharacter" unsigned32,
  optional "kind" (.word ["comment", "imports", "region"]),
  optional "collapsedText" .string]

def codeLens : Schema := .record [
  required "range" range,
  optional "command" command,
  optional "data" .any]

def inlayHintPart : Schema := .record [
  required "value" .string,
  optional "tooltip" documentation,
  optional "location" location,
  optional "command" command]

def inlayHint : Schema := .record [
  required "position" position,
  required "label" (.oneOf [.string, .list inlayHintPart]),
  optional "kind" int32,
  optional "textEdits" (.list textEdit),
  optional "tooltip" documentation,
  optional "paddingLeft" .bool,
  optional "paddingRight" .bool,
  optional "data" .any]

/-- One location, a list of them, or a list of links. -/
def targets : Schema := .oneOf [location, .list location, .list locationLink]

end LanguageHub.Schema

namespace LanguageHub

/-- The locations in an answer about targets. -/
def locationsOf (answer : Json) : Option (List Location) :=
  match Location.ofJson? answer with
  | some l => some [l]
  | none =>
    match answer with
    | .arr items => (items.mapM Location.ofJson?).or (items.mapM Location.ofLink?)
    | _ => none

/-- The items of an answer to a completion request. -/
def completionItemsOf (answer : Json) : Option (List Json) :=
  match Schema.completions.read? answer with
  | some (.arr items) => some items
  | some v => (v.get? "items").bind Json.arr?
  | none => none

end LanguageHub
