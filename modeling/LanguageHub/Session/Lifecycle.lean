import LanguageHub.Client.Calls

/-!
# Starting and stopping sessions

A start brings up the connection, does the handshake and leaves the session started or
failed. A stop says goodbye, takes the connection down and forgets the documents. Starts,
stops and restarts of a session take turns. A connection that is lost while the session is
started fails it.
-/

namespace LanguageHub.Session

open Routine (get gets modify modifyGet waitUntil ensuring)

/-! ## States -/

/-- Moves to a state and reports that, when it is a new one. -/
def enter (s : Nat) (state : ServerState) (h : Hub) : Hub :=
  let session := h.session s
  if session.state = state then h
  else
    (h.onSession s fun session => { session with state }).emit
      (.stateChanged session.serverId session.scope.shown state.name)

/-- Moves to the failed state, with the reason. -/
def fail (s : Nat) (e : HubError) (h : Hub) : Hub :=
  let h := enter s .failed
    (h.onSession s fun session => { session with lastError := some e.message })
  if h.options.errorReporting = .notification then
    h.emit (.serverError (h.session s).serverId e.message)
  else h

def failWith (s : Nat) (e : HubError) : Program (Except HubError α) := do
  modify (fail s e)
  pure (.error e)

/-! ## Connections -/

/-- How long a process must run before it counts as started. -/
def settlingTime : Duration := .ofMillis 200

/-- What the host editor's next connection for a server comes to. The last one stays. -/
def takeLaunch (id : String) (h : Hub) : Launch × Hub :=
  match List.lookup id h.launches with
  | some [l] => (l, h)
  | some (l :: rest) => (l, { h with launches := (id, rest) :: h.launches.filter (·.1 != id) })
  | _ => (.mute, h)

/-- Waits until the host editor has made a connection. -/
def awaitLaunch (id : String) : Program Launch := do
  waitUntil fun h => (List.lookup id h.launches).any (!·.isEmpty)
  modifyGet (takeLaunch id)

/-- Tries to reach a server as the connection says. -/
def reach (connection : Connection) (id root : String) : Program Launch := do
  match connection with
  | .factory => awaitLaunch id
  | .process command workingDir _ =>
    match Connection.commandFault? command with
    | some reason => pure (.refused reason)
    | none =>
      match (← get).environment.run command (workingDir.getD root) with
      | .refused reason => pure (.refused reason)
      | launch =>
        Program.sleep settlingTime
        pure launch
  | .socket address =>
    match Address.fault? address with
    | some reason => pure (.refused (Connection.dialFailure address reason))
    | none => pure ((← get).environment.dial address)

/-- Opens the link to a server that was reached, or says why there is none. -/
def openLink (serverId root : String) (launch : Launch) (h : Hub) : Except HubError Nat × Hub :=
  match launch with
  | .refused reason => (.error (.processStart serverId reason), h)
  | .mute => (.error (.processStart serverId "connection produced no streams"), h)
  | .opened readFault writeFault =>
    (.ok h.links.length,
      { h with links := h.links ++ [⟨serverId, root, { Link.fresh with readFault, writeFault }⟩] })

/-- Where the session's server runs. -/
def rootOf (h : Hub) (s : Nat) : String := (h.session s).roots.headD h.directory

/-- Reaches the session's server. -/
def openConnection (s : Nat) : Program (Except HubError Nat) := do
  let h ← get
  let session := h.session s
  let launch ← reach session.connection session.serverId (rootOf h s)
  modifyGet (openLink session.serverId (rootOf h s) launch)

/-! ## Handshake -/

/-- The workspace folder of a root; its URI names it. -/
def folder? (root : String) : Option WorkspaceFolder :=
  match Uri.ofPath root with
  | .ok uri => some ⟨uri, (Path.fileName? root).getD "workspace"⟩
  | .error _ => none

def clientName : String := "switchyard"

def clientVersion : String := "0.4.2"

def initializeParams (processId : Nat) (options : Option Json) (folders : List WorkspaceFolder) :
    Json :=
  .mkSparse [
    ("processId", some (.ofNat processId)),
    ("rootUri", some .null),
    ("clientInfo", some (.mkObj [("name", .str clientName), ("version", .str clientVersion)])),
    ("initializationOptions", options),
    ("capabilities", some clientCapabilities),
    ("workspaceFolders", some (.arr (folders.map (·.toJson))))]

/-- A request that fails is a failed handshake. -/
def handshakeError (serverId : String) (timeout : Duration) : HubError → HubError
  | .requestTimeout .. => .handshakeTimeout serverId timeout
  | e => .handshakeProtocol serverId e.message

/-- Asks the server to initialize; what it can do. -/
def shakeHands (s c : Nat) (folders : List WorkspaceFolder) :
    Program (Except HubError ServerCapabilities) := do
  let h ← get
  let timeout := h.options.handshakeTimeout
  let params := initializeParams h.processId (h.definitionOf s).initializationOptions folders
  let answer ← Client.request c "initialize" params none timeout
  let result := answer.bind fun v =>
    match ServerCapabilities.ofInitializeResult? v with
    | some capabilities => .ok capabilities
    | none => .error .malformedPayload
  pure (result.mapError (handshakeError (h.session s).serverId timeout))

/-! ## Taking down -/

/-- The client of the session is used no more. -/
def dropClient (s : Nat) (h : Hub) : Hub :=
  match (h.session s).running with
  | none => h
  | some r =>
    (h.onSession s fun session => { session with running := none }).onClient r.client
      Client.release

/-- Waits for a server to go by itself, for a while; then it is killed. -/
def endServer (link : Nat) : Program Unit := do
  let grace := (← get).options.shutdownGrace
  if ((← get).link link).isLingering then
    let deadline ← modifyGet (Hub.startTimer grace)
    waitUntil fun h => !(h.link link).isLingering || h.hasPassed deadline
    modify (Hub.onLink link fun l => { l with isLingering := false })
  else pure ()

/-- Drops the client and the connection without a word. -/
def tearDown (s : Nat) : Program Unit := do
  modify (dropClient s)
  Program.withLock (.provider s) do
    let link ← modifyGet fun h =>
      ((h.session s).link, h.onSession s fun session => { session with link := none })
    match link with
    | some link => endServer link
    | none => pure ()
  modify (Hub.onSession s fun session => { session with processId := none })

/-- How long a server may take to answer that it shuts down. -/
def shutdownLimit : Duration := .ofSeconds 5

/-- Says goodbye to the server, when it can still be reached. -/
def sayGoodbye (s : Nat) : Program Unit := do
  let h ← get
  match (h.session s).running with
  | none => pure ()
  | some r =>
    if (h.client r.client).isOpen then
      let limit : Duration := ⟨min shutdownLimit.nanos h.options.requestTimeout.nanos⟩
      let _ ← Client.holding r.client (Client.shutDown r.client limit)

/-- Stops the session, whose turn it is. -/
def stopInTurn (s : Nat) : Program Unit := do
  let state := (← get).session s |>.state
  if state = .notStarted ∨ state = .stopped then pure ()
  else
    modify (Hub.onSession s fun session => { session with epoch := session.epoch + 1 })
    modify (enter s .stopping)
    sayGoodbye s
    tearDown s
    modify (Hub.onSession s fun session => { session with documents := [], startedAt := none })
    modify (enter s .stopped)

/-! ## Starting -/

/-- Tells the server the settings of the session's definition, when it has any. -/
def pushSettings (s : Nat) : Program (Except HubError Unit) := do
  let h ← get
  match (h.definitionOf s).settings with
  | none => pure (.ok ())
  | some settings =>
    match (h.session s).client? with
    | .error e => pure (.error e)
    | .ok c =>
      Client.holding c
        (Client.notify c "workspace/didChangeConfiguration" (.mkObj [("settings", settings)]))

/-- The session runs from now on. -/
def run (s c epoch : Nat) (capabilities : ServerCapabilities) : Program Unit := do
  modify (Hub.onClient c Client.hold)
  modify (Hub.onSession s fun session => { session with running := some ⟨c, capabilities⟩ })
  modify (enter s .started)
  let _ ← pushSettings s
  Routine.start (.watchConnection s c epoch)

/-- Introduces the client to its server: the handshake, and the word that it is over. -/
def introduce (s c epoch : Nat) (folders : List WorkspaceFolder) :
    Program (Except HubError Unit) := do
  modify (enter s .initializing)
  match ← shakeHands s c folders with
  | .error e =>
    tearDown s
    failWith s e
  | .ok capabilities =>
    match ← Client.notify c "initialized" (.mkObj []) with
    | .error e =>
      tearDown s
      failWith s e
    | .ok () =>
      run s c epoch capabilities
      pure (.ok ())

/-- A new client over a link; its reader begins. -/
def newClient (s link : Nat) (folders : List WorkspaceFolder) : Program Nat := do
  let c ← modifyGet fun h =>
    let session := h.session s
    (h.clients.length, { h with clients := h.clients ++
      [.new session.serverId session.definition folders h.options.requestTimeout link] })
  Routine.start (.read c)
  pure c

/-- Starts the session, whose turn it is. -/
def startInTurn (s : Nat) : Program (Except HubError Unit) := do
  modify fun h => h.onSession s (·.begin h.clock)
  let epoch := ((← get).session s).epoch
  modify (enter s .starting)
  match ← openConnection s with
  | .error e => failWith s e
  | .ok link =>
    modify fun h => h.onSession s fun session =>
      { session with processId := (h.link link).processId }
    Program.withLock (.provider s)
      (modify (Hub.onSession s fun session => { session with link := some link }))
    let folders := ((← get).session s).roots.filterMap folder?
    let c ← newClient s link folders
    ensuring (Hub.onClient c Client.release) (introduce s c epoch folders)

/-! ## In turn -/

/-- Starts the session unless it runs. One that failed is not started again. -/
def start (s : Nat) : Program (Except HubError Unit) :=
  Program.withLock (.lifecycle s) do
    let session := (← get).session s
    match session.state with
    | .started => pure (.ok ())
    | .failed => pure (.error (.notStarted session.serverId))
    | _ => startInTurn s

/-- Stops the session. -/
def stop (s : Nat) : Program Unit := Program.withLock (.lifecycle s) (stopInTurn s)

/-- Notices when the connection of a run is lost. -/
def watchConnection (s c epoch : Nat) : Program Unit := do
  waitUntil fun h => (h.client c).isOver
  let session := (← get).session s
  if session.epoch = epoch ∧ session.state = .started then
    modify (fail s .connectionClosed)
    tearDown s

end LanguageHub.Session
