import LanguageHub.Session.Lifecycle

/-!
# Documents of a session

A document that is connected is opened at its server, which hears of its changes and saves
until it is closed there. What is said about one document is said in order, under its send
lock; the lock is taken for the opening before anyone else can. A session that loses its
last document stops after a while, and a restart opens all its documents again.
-/

namespace LanguageHub.Session

open Routine (get gets modify modifyGet waitUntil)

/-- Tells the server about a document, when the session runs; whether that reached it. -/
def tell (s : Nat) (n : DocumentNotice) : Program Bool := do
  match ((← get).session s).client? with
  | .error _ => pure false
  | .ok c =>
    match ← Client.holding c (Client.tell c n) with
    | .error _ => pure false
    | .ok () => pure true

/-- Tells the server that a document is open, when the session runs. -/
def sendOpen (s k : Nat) : Program Unit := do
  let sync := (← get).synchronizer k
  if ← tell s sync.openNotice then
    modify fun h => h.emit (.documentOpened (h.session s).serverId sync.uri)

/-- A new synchronizer for a document of the session. -/
def addDocument (s : Nat) (sync : Synchronizer) (h : Hub) : Nat × Hub :=
  let k := h.synchronizers.length
  (k, { h with synchronizers := h.synchronizers ++ [sync] }.onSession s (·.attach sync.uri k))

/-- Attaches a document and opens it at the server. Nobody else can have come for its send
lock yet. -/
def openDocument (s : Nat) (sync : Synchronizer) : Program Nat := do
  let k ← modifyGet (addDocument s sync)
  Program.withFreeLock (.send k) (sendOpen s k)
  pure k

/-- Connects a document, starting the session first. A document that is connected stays as
it is. -/
def connect (s : Nat) (document : DocumentRef) (text : String) : Program (Except HubError Nat) := do
  match ← start s with
  | .error e => pure (.error e)
  | .ok () =>
    modify (Hub.onSession s (·.touched))
    let h ← get
    let session := h.session s
    match session.capabilities?, session.synchronizer? document.uri with
    | none, _ => pure (.error (.notStarted session.serverId))
    | some _, some k => pure (.ok k)
    | some capabilities, none =>
      let languageId := (h.definitionOf s).languageIdFor document.language
      let k ← openDocument s
        (.start document.uri languageId (.ofCapabilities capabilities) text)
      pure (.ok k)

/-- Waits until the session should stop if nobody needs it, which begins now. -/
def stopWhenIdle (s attachments : Nat) : Program Unit := do
  Program.sleep ((← get).definitionOf s).disconnectTimeout
  let session := (← get).session s
  if session.attachments = attachments ∧ session.documents.isEmpty ∧ session.state = .started then
    stop s

/-- Disconnects a document. With the last one the session begins to wait for its end. -/
def disconnect (s : Nat) (uri : String) : Program Unit := do
  match ((← get).session s).synchronizer? uri with
  | none => pure ()
  | some k =>
    modify (Hub.onSession s fun session => (session.detach uri).touched)
    let isLast := ((← get).session s).documents.isEmpty
    Program.withLock (.send k) do
      let h ← get
      if ← tell s (h.synchronizer k).closeNotice then
        modify fun h => h.emit (.documentClosed (h.session s).serverId uri)
    if isLast then
      Routine.start (.stopWhenIdle s ((← get).session s).attachments)

/-- Tells the server the changes of a document; its new version, when there are any. -/
def commit (s : Nat) (uri : String) : Program (Option Nat) := do
  match ((← get).session s).synchronizer? uri with
  | none => pure none
  | some k =>
    Program.withLock (.send k) do
      let notice ← modifyGet fun h =>
        let (notice, sync) := (h.synchronizer k).takeCommit
        (notice, h.onSynchronizer k fun _ => sync)
      match notice with
      | none => pure none
      | some notice =>
        let version := ((← get).synchronizer k).version
        let _ ← tell s notice
        pure (some version)

/-- Tells the server that a document was saved, when it wants to know. -/
def save (s : Nat) (uri text : String) : Program Unit := do
  match ((← get).session s).synchronizer? uri with
  | none => pure ()
  | some k =>
    Program.withLock (.send k) do
      match ((← get).synchronizer k).saveNotice ⟨text⟩ with
      | none => pure ()
      | some notice =>
        let _ ← tell s notice

/-! ## Edits -/

/-- An edit of a document is about to be made. -/
def beforeChange (s : Nat) (uri : String) (b : Buffer) (e : Edit) (h : Hub) : Hub :=
  match (h.session s).synchronizer? uri with
  | none => h
  | some k => h.onSynchronizer k (·.beforeChange b e)

/-- An edit of a document was made. -/
def afterChange (s : Nat) (uri : String) (b : Buffer) (h : Hub) : Hub :=
  match (h.session s).synchronizer? uri with
  | none => h
  | some k => h.onSynchronizer k (·.afterChange b)

/-! ## Restarting -/

/-- Opens documents again, as they were last. -/
def reopen (s : Nat) (settings : SyncSettings) : List Synchronizer → Program Unit
  | [] => pure ()
  | sync :: rest => do
    let _ ← openDocument s (.start sync.uri sync.languageId settings sync.lastText)
    reopen s settings rest

/-- Stops the session and starts it again with the same documents. -/
def restart (s : Nat) : Program (Except HubError Unit) :=
  Program.withLock (.lifecycle s) do
    let h ← get
    let session := h.session s
    if session.state = .notStarted then pure (.error (.notStarted session.serverId))
    else
      let documents := session.documents.map fun (_, k) => h.synchronizer k
      stopInTurn s
      match ← startInTurn s with
      | .error e => pure (.error e)
      | .ok () =>
        let capabilities := ((← get).session s).capabilities?.getD .none
        reopen s (.ofCapabilities capabilities) documents
        pure (.ok ())

/-! ## Diagnostics -/

/-- The last diagnostics of a document, while the session runs. -/
def diagnostics (h : Hub) (s : Nat) (uri : String) : List Json :=
  match (h.session s).client? with
  | .ok c => (h.client c).diagnosticsOf uri
  | .error _ => []

end LanguageHub.Session
