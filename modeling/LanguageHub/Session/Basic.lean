import LanguageHub.Error
import LanguageHub.Payload.Capabilities
import LanguageHub.Registry.Definition
import LanguageHub.Session.State

/-!
# Sessions

A session runs one server for one scope: it starts and stops it, keeps the documents that
are open there, and remembers its last failure.
-/

namespace LanguageHub

/-- What a started session speaks through, and what its server can do. -/
structure Running where
  client : Nat
  capabilities : ServerCapabilities
  deriving Repr, Inhabited

structure Session where
  serverId : String
  /-- The serial of the definition that the session runs. -/
  definition : Nat
  scope : ScopeKey
  /-- The workspace folders; the server runs in the first one. -/
  roots : List String
  connection : Connection
  state : ServerState
  /-- The link of the server that was started. -/
  link : Option Nat
  running : Option Running
  /-- The synchronizers of the connected documents, by URI. -/
  documents : List (String × Nat)
  lastError : Option String
  startedAt : Option Duration
  processId : Option Nat
  /-- Counts the documents that came and went; an idle timer notices when it changes. -/
  attachments : Nat
  /-- Counts starts and stops; a monitor of an earlier run notices when it changes. -/
  epoch : Nat
  deriving Repr, Inhabited

namespace Session

def new (serverId : String) (definition : Nat) (scope : ScopeKey) (roots : List String)
    (connection : Connection) : Session where
  serverId
  definition
  scope
  roots
  connection
  state := .notStarted
  link := none
  running := none
  documents := []
  lastError := none
  startedAt := none
  processId := none
  attachments := 0
  epoch := 0

def capabilities? (s : Session) : Option ServerCapabilities := s.running.map (·.capabilities)

def synchronizer? (s : Session) (uri : String) : Option Nat := List.lookup uri s.documents

def isConnected (s : Session) (uri : String) : Bool := (s.synchronizer? uri).isSome

/-- The client, while the session is started. -/
def client? (s : Session) : Except HubError Nat :=
  match s.state, s.running with
  | .started, some r => .ok r.client
  | _, _ => .error (.notStarted s.serverId)

/-- A new run begins. -/
def begin (s : Session) (now : Duration) : Session :=
  { s with epoch := s.epoch + 1, lastError := none, startedAt := some now }

def attach (s : Session) (uri : String) (synchronizer : Nat) : Session :=
  { s with documents := s.documents.filter (·.1 != uri) ++ [(uri, synchronizer)] }

def detach (s : Session) (uri : String) : Session :=
  { s with documents := s.documents.filter (·.1 != uri) }

/-- A document came or went. -/
def touched (s : Session) : Session := { s with attachments := s.attachments + 1 }

/-- The scope shows as a directory for a project. -/
def shown (s : Session) : String := s.serverId ++ " " ++ s.scope.shown

end Session

end LanguageHub
