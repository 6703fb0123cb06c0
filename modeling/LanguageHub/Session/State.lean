import LanguageHub.Json.Basic

/-!
# States of a session
-/

namespace LanguageHub

inductive ServerState where
  | notStarted
  | starting
  | initializing
  | started
  | stopping
  | stopped
  | failed
  deriving DecidableEq, Repr, Inhabited

namespace ServerState

def code : ServerState → Nat
  | notStarted => 0
  | starting => 1
  | initializing => 2
  | started => 3
  | stopping => 4
  | stopped => 5
  | failed => 6

/-- Every number beyond the known ones means failure. -/
def ofCode : Nat → ServerState
  | 0 => notStarted
  | 1 => starting
  | 2 => initializing
  | 3 => started
  | 4 => stopping
  | 5 => stopped
  | _ => failed

theorem ofCode_code (s : ServerState) : ofCode s.code = s := by cases s <;> rfl

/-- The server runs or is about to. -/
def isLive : ServerState → Bool
  | starting | initializing | started => true
  | _ => false

def name : ServerState → String
  | notStarted => "not_started"
  | starting => "starting"
  | initializing => "initializing"
  | started => "started"
  | stopping => "stopping"
  | stopped => "stopped"
  | failed => "failed"

end ServerState

/-- What a session serves: everything, or the project below a directory. -/
inductive ScopeKey where
  | application
  | project (root : String)
  deriving DecidableEq, Repr, Inhabited

namespace ScopeKey

def shown : ScopeKey → String
  | application => "application"
  | project root => "project:" ++ root

def toJson : ScopeKey → Json
  | application => .str "application"
  | project root => .mkObj [("project", .str root)]

end ScopeKey

/-- What observers see of a session. -/
structure ServerStatus where
  serverId : String
  label : String
  scope : ScopeKey
  state : ServerState
  lastError : Option String
  openDocuments : Nat
  processId : Option Nat
  uptimeSeconds : Nat
  deriving DecidableEq, Repr, Inhabited

def ServerStatus.toJson (s : ServerStatus) : Json :=
  .mkSparse [
    ("server_id", some (.str s.serverId)),
    ("label", some (.str s.label)),
    ("scope", some s.scope.toJson),
    ("state", some (.str s.state.name)),
    ("last_error", s.lastError.map .str),
    ("open_documents", some (.ofNat s.openDocuments)),
    ("pid", s.processId.map .ofNat),
    ("uptime_secs", some (.ofNat s.uptimeSeconds))]

end LanguageHub
