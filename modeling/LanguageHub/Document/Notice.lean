import LanguageHub.Error
import LanguageHub.Payload.Basic
import LanguageHub.Registry.Language
import LanguageHub.Uri

/-!
# Documents and what servers are told about them
-/

namespace LanguageHub

/-- Which document is meant: where it is and what language it is in. -/
structure DocumentRef where
  uri : String
  path : String
  language : Language
  deriving Repr, Inhabited

def DocumentRef.ofPath (path : String) (language : Language) : Except HubError DocumentRef :=
  match Uri.ofPath path with
  | .ok uri => .ok ⟨uri, path, language⟩
  | .error reason => .error (.invalidPath reason)

/-- One change of a document's text: of a range, or of the whole text without one. -/
structure TextChange where
  range : Option Range
  /-- The UTF-16 units in the range before the change. -/
  rangeLength : Option Nat
  text : String
  deriving DecidableEq, Repr, Inhabited

namespace TextChange

/-- The whole text is now this. -/
def whole (text : String) : TextChange := ⟨none, none, text⟩

def toJson (c : TextChange) : Json :=
  .mkSparse [("range", c.range.map Range.toJson), ("rangeLength", c.rangeLength.map .ofNat),
    ("text", some (.str c.text))]

end TextChange

/-- What a server is told about a document. -/
inductive DocumentNotice where
  | opened (uri languageId : String) (version : Nat) (text : String)
  | changed (uri : String) (version : Nat) (changes : List TextChange)
  | saved (uri : String) (text : Option String)
  | closed (uri : String)
  deriving DecidableEq, Repr, Inhabited

namespace DocumentNotice

def uri : DocumentNotice → String
  | opened uri .. => uri
  | changed uri .. => uri
  | saved uri _ => uri
  | closed uri => uri

def method : DocumentNotice → String
  | opened .. => "textDocument/didOpen"
  | changed .. => "textDocument/didChange"
  | saved .. => "textDocument/didSave"
  | closed _ => "textDocument/didClose"

def params : DocumentNotice → Json
  | opened uri languageId version text => .mkObj [("textDocument", .mkObj [
      ("uri", .str uri), ("languageId", .str languageId), ("version", .ofNat version),
      ("text", .str text)])]
  | changed uri version changes => .mkObj [
      ("textDocument", .mkObj [("uri", .str uri), ("version", .ofNat version)]),
      ("contentChanges", .arr (changes.map TextChange.toJson))]
  | saved uri text => .mkSparse [
      ("textDocument", some (.mkObj [("uri", .str uri)])), ("text", text.map .str)]
  | closed uri => .mkObj [("textDocument", .mkObj [("uri", .str uri)])]

end DocumentNotice

end LanguageHub
