import LanguageHub.Client.Basic
import LanguageHub.Client.Cancellation
import LanguageHub.Config.Basic
import LanguageHub.Connection.Fault
import LanguageHub.Document.Synchronizer
import LanguageHub.Event.Lifecycle
import LanguageHub.Feature.Basic
import LanguageHub.Merge.Basic
import LanguageHub.Registry.Basic
import LanguageHub.Routine.Combine
import LanguageHub.Routine.Lock
import LanguageHub.Session.Basic

/-!
# The hub

The hub is the state that everything shares: the registry, the sessions with their
clients, links and documents, the locks, the clock, and what the outside world has in
store. Whatever has an identity stands in a table and is meant by its place there.
-/

namespace LanguageHub

/-! ## The outside world -/

/-- How an attempt to reach a server turns out. -/
inductive Launch where
  | refused (reason : String)
  /-- The server starts, but nothing can be said to it. -/
  | mute
  | opened (readFault writeFault : Option StreamFault)
  deriving DecidableEq, Repr, Inhabited

/-- The system on which servers run. -/
structure Environment where
  /-- What comes of running a command in a directory. -/
  run : List String → String → Launch
  /-- What comes of dialling an address. -/
  dial : String → Launch

/-- A system without programs, where nobody listens. -/
def Environment.bare : Environment where
  run command _ := .refused (Connection.spawnFailure (command.headD "") Connection.missing)
  dial address := .refused (Connection.dialFailure address Connection.refused)

/-- The editor around the hub, which may be asked whether it wants to cancel. -/
structure HostEditor where
  /-- How often it was asked. -/
  asked : Nat
  /-- From this question on it says yes. -/
  cancelsFrom : Option Nat
  deriving DecidableEq, Repr, Inhabited

def HostEditor.ask (e : HostEditor) : Bool × HostEditor :=
  (e.cancelsFrom.any (· ≤ e.asked + 1), { e with asked := e.asked + 1 })

/-- The link that was opened for a session. -/
structure OpenedLink where
  serverId : String
  /-- The directory that it was opened for. -/
  root : String
  link : Link
  deriving Repr, Inhabited

/-! ## Calls and jobs -/

/-- A question about a document under way to the sessions that were chosen for it. -/
structure FeatureRequest where
  feature : Feature
  uri : String
  sessions : List Nat
  cancellation : Nat
  deriving Repr, Inhabited

/-- What can be asked of the hub. -/
inductive Call where
  /-- A request to a client's server; the answer must have the shape, when one is given. -/
  | request (client : Nat) (method : String) (params : Json) (cancellation : Option Nat)
      (timeout : Duration) (shape : Option Schema)
  | notify (client : Nat) (method : String) (params : Json)
  | shutDown (client : Nat) (timeout : Duration)
  | startSession (session : Nat)
  | stopSession (session : Nat)
  | restartSession (session : Nat)
  | pushSettings (session : Nat)
  | connect (session : Nat) (document : DocumentRef) (text : String)
  | disconnect (session : Nat) (uri : String)
  | commit (session : Nat) (uri : String)
  | save (session : Nat) (uri text : String)
  | connectDocument (document : DocumentRef) (text : String)
  | disconnectDocument (uri : String)
  | commitDocument (uri : String)
  | saveDocument (uri text : String)
  | restartServer (id : String)
  | stopServer (id : String)
  | shutDownAll
  | ask (request : FeatureRequest)
  | cancelAfter (cancellation : Nat) (delay : Duration)
  deriving Repr, Inhabited

/-- What a call came to. -/
inductive Outcome where
  | value (result : Except HubError Json)
  | merged (result : Except HubError (Merged Json))

/-- What runs beside the calls, and calls in the background. -/
inductive Job where
  /-- Reads what a client's server sends. -/
  | read (client : Nat)
  /-- Notices when a session's connection is lost. -/
  | watchConnection (session client epoch : Nat)
  /-- Stops a session that has had no documents for a while. -/
  | stopWhenIdle (session attachments : Nat)
  /-- Follows the registry, of which so many events were seen. -/
  | watchRegistry (cursor : Nat)
  | call (slot : Nat) (call : Call)
  deriving Repr, Inhabited

/-! ## The state -/

inductive LockName where
  /-- Start, stop and restart of a session. -/
  | lifecycle (session : Nat)
  /-- A session's link, while it is put in place or taken down. -/
  | provider (session : Nat)
  /-- The outgoing stream of a client. -/
  | writer (client : Nat)
  /-- What a server is told about one document. -/
  | send (synchronizer : Nat)
  deriving DecidableEq, Repr, Inhabited

structure Hub where
  registry : Registry
  /-- The workspace folders. -/
  roots : List String
  environment : Environment
  /-- Where servers run that have no folder. -/
  directory : String
  processId : Nat
  options : SessionOptions
  events : EventHub
  clock : Duration
  /-- The times for which someone waits. -/
  timers : List Duration
  links : List OpenedLink
  clients : List Client
  synchronizers : List Synchronizer
  cancellations : List Cancellation
  sessions : List Session
  /-- The sessions to which documents are routed, in the order in which they were made. -/
  roster : List Nat
  locks : List (LockName × Lock)
  /-- How the next connections that the host editor makes for each server turn out; the
  last one stays. -/
  launches : List (String × List Launch)
  host : HostEditor
  /-- What background calls came to, and when. -/
  outcomes : List (Nat × Outcome × Duration)

/-- What shares the hub's state with everything else. -/
abbrev Program (α : Type) := Routine Job Hub α

namespace Hub

def new (registry : Registry) (roots : List String) (options : SessionOptions) : Hub where
  registry
  roots
  environment := .bare
  directory := "/"
  processId := 0
  options
  events := .silent
  clock := ⟨0⟩
  timers := []
  links := []
  clients := []
  synchronizers := []
  cancellations := []
  sessions := []
  roster := []
  locks := []
  launches := []
  host := ⟨0, none⟩
  outcomes := []

/-! ## Tables -/

def link (h : Hub) (i : Nat) : Link := (h.links[i]?.map (·.link)).getD .fresh

def onLink (i : Nat) (f : Link → Link) (h : Hub) : Hub :=
  { h with links := h.links.modify i fun l => { l with link := f l.link } }

def client (h : Hub) (i : Nat) : Client := h.clients[i]?.getD default

def onClient (i : Nat) (f : Client → Client) (h : Hub) : Hub :=
  { h with clients := h.clients.modify i f }

/-- Changes a client and keeps what the change gives. -/
def fromClient (i : Nat) (f : Client → α × Client) (h : Hub) : α × Hub :=
  let (a, c) := f (h.client i)
  (a, h.onClient i fun _ => c)

/-- The link of a client. -/
def linkOf (h : Hub) (c : Nat) : Link := h.link (h.client c).link

def session (h : Hub) (i : Nat) : Session := h.sessions[i]?.getD default

def onSession (i : Nat) (f : Session → Session) (h : Hub) : Hub :=
  { h with sessions := h.sessions.modify i f }

/-- The definition that a session runs, as it is now. -/
def definitionOf (h : Hub) (s : Nat) : ServerDefinition :=
  (h.registry.object? (h.session s).definition).getD default

def synchronizer (h : Hub) (i : Nat) : Synchronizer := h.synchronizers[i]?.getD default

def onSynchronizer (i : Nat) (f : Synchronizer → Synchronizer) (h : Hub) : Hub :=
  { h with synchronizers := h.synchronizers.modify i f }

def cancellation (h : Hub) (i : Nat) : Cancellation := h.cancellations[i]?.getD .new

def onCancellation (i : Nat) (f : Cancellation → Cancellation) (h : Hub) : Hub :=
  { h with cancellations := h.cancellations.modify i f }

def cancel (i : Nat) (h : Hub) : Hub := h.onCancellation i (·.cancel)

def isCancelled (i : Nat) (h : Hub) : Bool := (h.cancellation i).isCancelled

/-- A new cancellation. -/
def newCancellation (h : Hub) : Nat × Hub :=
  (h.cancellations.length, { h with cancellations := h.cancellations ++ [.new] })

/-! ## Locks, time and events -/

def lock (h : Hub) (n : LockName) : Lock := (List.lookup n h.locks).getD .free

def setLock (h : Hub) (n : LockName) (l : Lock) : Hub :=
  { h with locks := (n, l) :: h.locks.filter (·.1 != n) }

/-- Comes for a lock with a new ticket. -/
def enterLock (n : LockName) (h : Hub) : Nat × Hub :=
  let (ticket, l) := (h.lock n).enter
  (ticket, h.setLock n l)

def leaveLock (n : LockName) (ticket : Nat) (h : Hub) : Hub := h.setLock n ((h.lock n).leave ticket)

/-- The time after a while, for which someone waits from now on. -/
def startTimer (d : Duration) (h : Hub) : Duration × Hub :=
  let deadline : Duration := ⟨h.clock.nanos + d.nanos⟩
  (deadline, { h with timers := deadline :: h.timers })

def hasPassed (h : Hub) (deadline : Duration) : Bool := deadline.nanos ≤ h.clock.nanos

def emit (k : EventKind) (h : Hub) : Hub :=
  let now : Timestamp := ⟨(h.clock.nanos / 1000000000 : Nat), h.clock.nanos % 1000000000⟩
  { h with events := h.events.send now k }

/-- A background call is over. -/
def finish (slot : Nat) (o : Outcome) (h : Hub) : Hub :=
  { h with outcomes := h.outcomes ++ [(slot, o, h.clock)] }

end Hub

namespace Program

open Routine (get gets modify modifyGet waitUntil ensuring)

/-- Comes for a lock and runs a program with the ticket; the lock is left in any case. -/
def inLine (n : LockName) (p : Nat → Program α) : Program α := do
  let ticket ← modifyGet (Hub.enterLock n)
  ensuring (Hub.leaveLock n ticket) (p ticket)

/-- Runs a program while it holds a lock. -/
def withLock (n : LockName) (p : Program α) : Program α :=
  inLine n fun ticket => do
    waitUntil fun h => (h.lock n).isHeldBy ticket
    p

/-- Runs a program while it holds a lock that is free, so that there is no wait. -/
def withFreeLock (n : LockName) (p : Program α) : Program α := inLine n fun _ => p

/-- Waits for a while. -/
def sleep (d : Duration) : Program Unit := do
  let deadline ← modifyGet (Hub.startTimer d)
  waitUntil (·.hasPassed deadline)

end Program

end LanguageHub
