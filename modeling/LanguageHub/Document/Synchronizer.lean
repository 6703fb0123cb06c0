import LanguageHub.Document.Notice
import LanguageHub.Payload.Capabilities

/-!
# Keeping a server's copy of a document

A synchronizer collects the changes of one document for one server. Each edit is shown to
it before and after it is made: before, because its range counts in the old text, and
after, because only then the new text is known. A commit takes the collected changes.
-/

namespace LanguageHub

/-- A change that waits for a commit. -/
inductive PendingChange where
  | ready (change : TextChange)
  /-- The edit had no range; the whole text after it is to be sent. -/
  | awaitingText
  deriving DecidableEq, Repr, Inhabited

structure Synchronizer where
  uri : String
  languageId : String
  settings : SyncSettings
  version : Nat
  pending : List PendingChange
  /-- The text after the last edit that was shown. -/
  lastText : String
  deriving DecidableEq, Repr, Inhabited

namespace Synchronizer

/-- The version of an opened document. -/
def initialVersion : Nat := 1

def start (uri languageId : String) (settings : SyncSettings) (text : String) : Synchronizer :=
  ⟨uri, languageId, settings, initialVersion, [], text⟩

def kind (s : Synchronizer) : SyncKind := s.settings.kind

def openNotice (s : Synchronizer) : DocumentNotice :=
  .opened s.uri s.languageId initialVersion s.lastText

/-- The change that an edit makes to a buffer, when its range counts in it. -/
def rangedChange? (b : Buffer) (e : Edit) : Option TextChange := do
  let start ← b.positionAt e.offset
  let stop ← b.positionAt (e.offset + e.oldLength)
  let removed ← b.removed? e
  let length := Text.unitCount removed
  if length < UInt32.size then pure ⟨some ⟨start, stop⟩, some length, e.newText⟩ else none

/-- Shows an edit that is about to be made. -/
def beforeChange (s : Synchronizer) (b : Buffer) (e : Edit) : Synchronizer :=
  if s.kind = .incremental then
    let change := match rangedChange? b e with
      | some c => PendingChange.ready c
      | none => .awaitingText
    { s with pending := s.pending ++ [change] }
  else s

def PendingChange.withText (text : String) : PendingChange → PendingChange
  | .ready c => .ready c
  | .awaitingText => .ready (.whole text)

/-- Shows the text after an edit. -/
def afterChange (s : Synchronizer) (b : Buffer) : Synchronizer :=
  let pending :=
    if s.kind = .full then [.ready (.whole b.text)]
    else if s.kind = .incremental then s.pending.map (PendingChange.withText b.text)
    else s.pending
  { s with pending, lastText := b.text }

def PendingChange.settle (lastText : String) : PendingChange → TextChange
  | .ready c => c
  | .awaitingText => .whole lastText

/-- Takes the collected changes, when there are any. -/
def takeCommit (s : Synchronizer) : Option DocumentNotice × Synchronizer :=
  if s.pending.isEmpty then (none, s)
  else
    (some (.changed s.uri (s.version + 1) (s.pending.map (PendingChange.settle s.lastText))),
      { s with version := s.version + 1, pending := [] })

/-- What to say about a save, when the server wants to know. -/
def saveNotice (s : Synchronizer) (b : Buffer) : Option DocumentNotice :=
  s.settings.saveText.map fun withText => .saved s.uri (if withText then some b.text else none)

def closeNotice (s : Synchronizer) : DocumentNotice := .closed s.uri

end Synchronizer

end LanguageHub
