import LanguageHub.Event.Broadcast
import LanguageHub.Event.Timestamp
import LanguageHub.Json.Printer
import LanguageHub.Payload.Schema

/-!
# Lifecycle events

Sessions report what happens to them: changes of state, failures, and documents that are
opened and closed. Observers subscribe, or read the log that gets one JSON line an event.
-/

namespace LanguageHub

inductive EventKind where
  | stateChanged (server scope state : String)
  | serverError (server message : String)
  | requestFailed (server method message : String)
  | documentOpened (server uri : String)
  | documentClosed (server uri : String)
  deriving DecidableEq, Repr, Inhabited

namespace EventKind

def server : EventKind → String
  | stateChanged server .. => server
  | serverError server _ => server
  | requestFailed server .. => server
  | documentOpened server _ => server
  | documentClosed server _ => server

/-- The names of the kinds in the order of their numbers. -/
def tags : List String :=
  ["state_changed", "server_error", "request_failed", "document_opened", "document_closed"]

def tag : EventKind → String
  | stateChanged .. => "state_changed"
  | serverError .. => "server_error"
  | requestFailed .. => "request_failed"
  | documentOpened .. => "document_opened"
  | documentClosed .. => "document_closed"

def fields : EventKind → List (String × String)
  | stateChanged server scope state => [("server", server), ("scope", scope), ("state", state)]
  | serverError server message => [("server", server), ("message", message)]
  | requestFailed server method message =>
    [("server", server), ("method", method), ("message", message)]
  | documentOpened server uri => [("server", server), ("uri", uri)]
  | documentClosed server uri => [("server", server), ("uri", uri)]

/-- The names of a kind's fields. -/
def fieldNames (tag : String) : List String :=
  match tag with
  | "state_changed" => ["server", "scope", "state"]
  | "server_error" => ["server", "message"]
  | "request_failed" => ["server", "method", "message"]
  | _ => ["server", "uri"]

def members (k : EventKind) : List (String × Json) :=
  ("type", .str k.tag) :: k.fields.map fun (name, value) => (name, .str value)

def toJson (k : EventKind) : Json := .mkObj k.members

def ofFields? (tag : String) (values : List String) : Option EventKind :=
  match tag, values with
  | "state_changed", [server, scope, state] => some (stateChanged server scope state)
  | "server_error", [server, message] => some (serverError server message)
  | "request_failed", [server, method, message] => some (requestFailed server method message)
  | "document_opened", [server, uri] => some (documentOpened server uri)
  | "document_closed", [server, uri] => some (documentClosed server uri)
  | _, _ => none

/-- The kind with this name and the fields of an object. -/
def ofMembers? (tag : String) (v : Json) : Option EventKind := do
  let values ← (fieldNames tag).mapM fun name => (v.get? name).bind Json.str?
  ofFields? tag values

/-- An event is an object with its kind's name, or an array of the name and the fields. -/
def ofJson? (v : Json) : Option EventKind :=
  match v with
  | .arr (.str tag :: values) => (values.mapM Json.str?).bind (ofFields? tag)
  | v => do
    let tag ← (v.get? "type").bind Json.str?
    ofMembers? tag v

end EventKind

/-- An event with the time at which it was reported. -/
structure LifecycleEvent where
  timestamp : Timestamp
  kind : EventKind
  deriving DecidableEq, Repr, Inhabited

namespace LifecycleEvent

def toJson (e : LifecycleEvent) : Json :=
  .mkObj (("timestamp", .str e.timestamp.text) :: e.kind.members)

/-- An event with its time; here the kind may also be given by its number. -/
def ofJson? (v : Json) : Option LifecycleEvent := do
  let timestamp ← ((v.get? "timestamp").bind Json.str?).bind Timestamp.read?
  let tag ← match v.get? "type" with
    | some (.str tag) => some tag
    | some (.num (.int n)) => if 0 ≤ n then EventKind.tags[n.toNat]? else none
    | _ => none
  let kind ← EventKind.ofMembers? tag v
  pure ⟨timestamp, kind⟩

end LifecycleEvent

/-! ## The log -/

/-- What is at the path of the log when it is opened. -/
inductive LogPlace where
  /-- A file can be made or is there. -/
  | available
  /-- A part of the path above is a file. -/
  | belowFile
  /-- The path is a directory. -/
  | directory
  deriving DecidableEq, Repr

inductive LogFault where
  | createDirectory
  | openFile
  deriving DecidableEq, Repr

def LogFault.message : LogFault → String
  | createDirectory => "Failed to create event dir"
  | openFile => "Failed to open event log"

/-- Where events go: to the subscribers and to the log, when there is one. -/
structure EventHub where
  channel : Broadcast LifecycleEvent
  log : Option (List String)
  deriving Repr, Inhabited

namespace EventHub

def channelCapacity : Nat := 256

def silent : EventHub := ⟨.new channelCapacity, none⟩

def withLog : LogPlace → Except LogFault EventHub
  | .available => .ok ⟨.new channelCapacity, some []⟩
  | .belowFile => .error .createDirectory
  | .directory => .error .openFile

def send (h : EventHub) (now : Timestamp) (kind : EventKind) : EventHub :=
  let event : LifecycleEvent := ⟨now, kind⟩
  { channel := h.channel.send event
    log := h.log.map (· ++ [event.toJson.render]) }

end EventHub

end LanguageHub
