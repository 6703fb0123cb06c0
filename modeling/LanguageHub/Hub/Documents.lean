import LanguageHub.Hub.Routing
import LanguageHub.Session.Documents

/-!
# Documents at all their servers

What happens to a document is passed on to all its sessions side by side. A server that
cannot be started does not keep the document from the others.
-/

namespace LanguageHub.Hub

open Routine (get gets modify modifyGet)

/-- Connects a document to a session; the session, when it took the document. -/
def tryConnect (document : DocumentRef) (text : String) (s : Nat) : Program (Option Nat) := do
  match ← Session.connect s document text with
  | .ok _ => pure (some s)
  | .error _ => pure none

/-- Connects a document to every session to which it is routed; the sessions that took it. -/
def connectDocument (document : DocumentRef) (text : String) : Program (List Nat) := do
  let candidates ← modifyGet (sessionsFor document)
  let accepted ← Routine.all (candidates.map (tryConnect document text))
  pure (accepted.filterMap id)

/-- Does something with each session that has a document, side by side. -/
def withConnected (uri : String) (p : Nat → Program α) : Program Unit := do
  let _ ← Routine.all (((← get).connectedSessions uri).map p)

def disconnectDocument (uri : String) : Program Unit :=
  withConnected uri fun s => Session.disconnect s uri

def commitDocument (uri : String) : Program Unit :=
  withConnected uri fun s => Session.commit s uri

def saveDocument (uri text : String) : Program Unit :=
  withConnected uri fun s => Session.save s uri text

/-- An edit of a document is about to be made. -/
def beforeChange (uri : String) (b : Buffer) (e : Edit) (h : Hub) : Hub :=
  (h.connectedSessions uri).foldl (fun h s => Session.beforeChange s uri b e h) h

/-- An edit of a document was made. -/
def afterChange (uri : String) (b : Buffer) (h : Hub) : Hub :=
  (h.connectedSessions uri).foldl (fun h s => Session.afterChange s uri b h) h

end LanguageHub.Hub
