import LanguageHub.Document.Notice
import LanguageHub.Event.Lifecycle
import LanguageHub.Payload.Capabilities
import LanguageHub.Wire.Message

/-!
# What a run showed

Messages and events in an order that does not depend on chance. Documents that are opened
again after a restart come in any order, so openings that follow each other are sorted;
so are the events of sessions that start and stop side by side.
-/

namespace LanguageHub.Simulation

/-- Items in ascending order of their keys; equal keys keep their order. -/
def sortedBy (key : α → String) (items : List α) : List α :=
  items.mergeSort fun a b => !(key b < key a)

/-- Sorts each run of items that are alike. -/
def sortRuns (alike : α → Bool) (key : α → String) : List α → List α → List α
  | run, [] => sortedBy key run
  | run, a :: rest =>
    if alike a then sortRuns alike key (run ++ [a]) rest
    else sortedBy key run ++ a :: sortRuns alike key [] rest

/-- Items under their names, in the order in which the names first came. -/
def grouped (items : List (String × α)) : List (String × List α) :=
  (items.map (·.1)).eraseDups.map fun name => (name, (items.filter (·.1 == name)).map (·.2))

/-! ## Messages -/

def isOpening : Message → Bool
  | .notification n => n.method == "textDocument/didOpen"
  | _ => false

/-- The document that a notification is about. -/
def documentOf : Message → String
  | .notification n => (((n.params.get? "textDocument").bind (·.get? "uri")).bind Json.str?).getD ""
  | _ => ""

/-- What stands for the client's capabilities in a report. -/
def knownCapabilities : Json := .str "client_capabilities"

/-- The parameters of a handshake without what is the same or by chance in each of them. -/
def maskedMember (name : String) (value : Json) : Json :=
  if name = "processId" then .ofNat 0
  else if name = "capabilities" ∧ value.same clientCapabilities then knownCapabilities
  else value

def masked : Message → Message
  | .request r =>
    match r.method, r.params with
    | "initialize", .obj members =>
      .request { r with params := .obj (members.map fun (k, v) => (k, maskedMember k v)) }
    | _, _ => .request r
  | m => m

/-- What each peer got. -/
def messagesByPeer (log : List (String × Message)) : List (String × List Message) :=
  (grouped log).map fun (name, ms) => (name, (sortRuns isOpening documentOf [] ms).map masked)

/-! ## Events -/

def isOpenedEvent : EventKind → Bool
  | .documentOpened .. => true
  | _ => false

def openedUri : EventKind → String
  | .documentOpened _ uri => uri
  | _ => ""

/-- The scope that an event mentions. -/
def scopeOf : EventKind → String
  | .stateChanged _ scope _ => scope
  | _ => ""

/-- Events by scope, when they mention several. -/
def byScope (events : List EventKind) : List EventKind :=
  if 1 < ((events.map scopeOf).filter (· != "")).eraseDups.length then sortedBy scopeOf events
  else events

/-- What each server's sessions reported. -/
def eventsByServer (events : List EventKind) : List (String × List EventKind) :=
  (grouped (events.map fun e => (e.server, e))).map fun (id, es) =>
    (id, sortRuns isOpenedEvent openedUri [] (byScope es))

end LanguageHub.Simulation
