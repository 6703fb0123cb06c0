import LanguageHub.Hub.Basic

/-!
# Routing

A document belongs to the definitions that the registry finds for it, and of each of them
to one session: to the only one of an application or singleton, and else to the one for
the document's root. Sessions are made when they are first needed, at most one for a
definition's id and a scope.
-/

namespace LanguageHub

/-- Two scopes with the same root are the same, however it is written. -/
def ScopeKey.same : ScopeKey → ScopeKey → Bool
  | .application, .application => true
  | .project a, .project b => Path.same a b
  | _, _ => false

namespace Hub

/-- The deeper root of two; of equally deep ones the later. -/
def deeper (best : Option String) (root : String) : Option String :=
  match best with
  | none => some root
  | some b => if (Path.steps root).length < (Path.steps b).length then some b else some root

/-- The workspace root of a path: the deepest one above it, or else its directory. -/
def rootFor (h : Hub) (path : String) : String :=
  let above := (h.roots.filter (Path.startsWith path)).foldl deeper none
  (above.or (Path.parent? path)).getD ""

def scopeFor (h : Hub) (d : ServerDefinition) (path : String) : ScopeKey :=
  if d.singleton ∨ d.scope = .application then .application else .project (h.rootFor path)

/-- The session of a definition's id for a scope. -/
def sessionOf? (h : Hub) (id : String) (scope : ScopeKey) : Option Nat :=
  h.roster.find? fun s =>
    let session := h.session s
    session.serverId == id && session.scope.same scope

/-- The workspace folders of a new session. -/
def foldersFor (h : Hub) (scope : ScopeKey) (path : String) : List String :=
  match scope with
  | .application => if h.roots.isEmpty then (Path.parent? path).toList else h.roots
  | .project root => [root]

/-- The session of a definition for a path, which is made when there is none. -/
def sessionFor (d : ServerDefinition) (path : String) (h : Hub) : Nat × Hub :=
  let scope := h.scopeFor d path
  match h.sessionOf? d.id scope with
  | some s => (s, h)
  | none =>
    let s := h.sessions.length
    let session : Session :=
      .new d.id d.serial scope (h.foldersFor scope path) (h.registry.connectionFor d)
    (s, { h with sessions := h.sessions ++ [session], roster := h.roster ++ [s] })

/-- The sessions of definitions for a path, made as needed. -/
def sessionsForAll (path : String) : List ServerDefinition → Hub → List Nat × Hub
  | [], h => ([], h)
  | d :: ds, h =>
    let (s, h) := sessionFor d path h
    let (ss, h) := sessionsForAll path ds h
    (s :: ss, h)

/-- The sessions to which a document is routed, made as needed, in the registry's order. -/
def sessionsFor (document : DocumentRef) (h : Hub) : List Nat × Hub :=
  sessionsForAll document.path (h.registry.definitionsFor document.language document.path) h

/-- The sessions to which a document is routed that run and have it. -/
def startedSessionsFor (h : Hub) (document : DocumentRef) : List Nat :=
  ((h.registry.definitionsFor document.language document.path).filterMap fun d =>
    h.sessionOf? d.id (h.scopeFor d document.path)).filter fun s =>
      (h.session s).state = .started && (h.session s).isConnected document.uri

/-- The started sessions of a document whose servers can do something. -/
def eligibleSessions (h : Hub) (document : DocumentRef) (can : ServerCapabilities → Bool) :
    List Nat :=
  (h.startedSessionsFor document).filter fun s => (h.session s).capabilities?.any can

/-- The sessions that have a document. -/
def connectedSessions (h : Hub) (uri : String) : List Nat :=
  h.roster.filter fun s => (h.session s).isConnected uri

/-- The sessions of a definition's id. -/
def sessionsOf (h : Hub) (id : String) : List Nat :=
  h.roster.filter fun s => (h.session s).serverId == id

/-- Takes the sessions of a definition's id out of the roster. -/
def dropSessions (id : String) (h : Hub) : List Nat × Hub :=
  (h.sessionsOf id,
    { h with roster := h.roster.filter fun s => (h.session s).serverId != id })

/-- What observers see of a session. -/
def status (h : Hub) (s : Nat) : ServerStatus :=
  let session := h.session s
  let uptime := session.startedAt.map fun t => (h.clock.nanos - t.nanos) / 1000000000
  ⟨session.serverId, (h.definitionOf s).label, session.scope, session.state, session.lastError,
    session.documents.length, session.processId, uptime.getD 0⟩

end Hub

end LanguageHub
