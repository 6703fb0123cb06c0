import LanguageHub.Document.Notice
import LanguageHub.Hub.Basic

/-!
# Speaking with a server

Requests and notifications of a client. One message at a time goes over the link, and a
frame that was begun is finished before the next one. A request ends with its answer, with
its cancellation, with its time or with the connection, and in each case it is forgotten.
-/

namespace LanguageHub

namespace Hub

/-- Changes a link and keeps what the change gives. -/
def fromLink (i : Nat) (f : Link → α × Link) (h : Hub) : α × Hub :=
  let (a, l) := f (h.link i)
  (a, h.onLink i fun _ => l)

/-- A cancellation that may be missing is cancelled. -/
def isWithdrawn (cancellation : Option Nat) (h : Hub) : Bool :=
  cancellation.any fun i => h.isCancelled i

end Hub

namespace Client

open Routine (get gets modify modifyGet waitUntil giveWay ensuring)

/-- Uses the client for the length of a program; its last user takes it down. -/
def holding (c : Nat) (p : Program α) : Program α := do
  modify (Hub.onClient c hold)
  ensuring (Hub.onClient c release) p

/-! ## Writing -/

/-- Writes what follows the first `sent` bytes of a frame as the stream accepts it. Every
round of `fuel` writes a byte, so as much fuel as the frame has bytes is enough. -/
def transfer (c : Nat) (m : Message) (size : Nat) : Nat → Nat → Program (Except HubError Unit)
  | 0, _ => pure (.ok ())
  | fuel + 1, sent => do
    waitUntil fun h => (h.linkOf c).isWritable
    let count ← modifyGet fun h => h.fromLink (h.client c).link (·.write m size sent)
    match count with
    | .error e => pure (.error e)
    | .ok count =>
      if size ≤ sent + count then pure (.ok ()) else transfer c m size fuel (sent + count)

/-- What is left of a transfer once the link accepted some more bytes, or failed. -/
def carryOn (c : Nat) (m : Message) (size fuel sent : Nat) :
    Except HubError Nat → Program (Except HubError Unit)
  | .error e => pure (.error e)
  | .ok count =>
    if size ≤ sent + count then pure (.ok ()) else transfer c m size fuel (sent + count)

theorem transfer_succ (c : Nat) (m : Message) (size fuel sent : Nat) :
    transfer c m size (fuel + 1) sent = (waitUntil fun h => (h.linkOf c).isWritable) >>= fun _ =>
      (modifyGet fun h => h.fromLink (h.client c).link (·.write m size sent)) >>=
        carryOn c m size fuel sent :=
  rfl

/-- Writes one message, while no other is being written. -/
def write (c : Nat) (m : Message) : Program (Except HubError Unit) :=
  Program.withLock (.writer c) (transfer c m m.frame.length m.frame.length 0)

/-- Tells the server something, unless its stream is closed. -/
def notify (c : Nat) (method : String) (params : Json) : Program (Except HubError Unit) := do
  if (← gets (·.client c)).isOpen then write c (.ofNotification method params)
  else pure (.error .connectionClosed)

/-- Tells the server what happened to a document. -/
def tell (c : Nat) (n : DocumentNotice) : Program (Except HubError Unit) :=
  notify c n.method n.params

/-! ## Requests -/

/-- What an answer means: an error when it names one. -/
def resultOf (r : Response) : Except HubError Json :=
  match r.error with
  | some e => .error (.serverError e.code e.message)
  | none => .ok (r.result.getD .null)

/-- Gives a request up and tells the server so, whether or not that reaches it. -/
def withdraw (c : Nat) (id : RequestId) : Program (Except HubError Json) := do
  modify (Hub.onClient c (·.forget id))
  let _ ← notify c "$/cancelRequest" (.mkObj [("id", id.toCancelJson)])
  pure (.error .cancelled)

/-- Waits for the answer to a request. A cancellation comes before an answer, and an answer
before the end of the time. -/
def awaitAnswer (c : Nat) (id : RequestId) (method : String) (cancellation : Option Nat)
    (timeout : Duration) : Program (Except HubError Json) := do
  let deadline ← modifyGet (Hub.startTimer timeout)
  waitUntil fun h =>
    h.isWithdrawn cancellation || (h.client c).isSettled id || h.hasPassed deadline
  let h ← get
  if h.isWithdrawn cancellation then withdraw c id
  else if (h.client c).isSettled id then
    match ← modifyGet (Hub.fromClient c (·.collect id)) with
    | some r => pure (resultOf r)
    | none => pure (.error .connectionClosed)
  else
    modify (Hub.onClient c (·.forget id))
    pure (.error (.requestTimeout method timeout))

/-- Writes a request that is registered and waits for its answer. -/
def exchange (c : Nat) (id : RequestId) (method : String) (params : Json)
    (cancellation : Option Nat) (timeout : Duration) : Program (Except HubError Json) := do
  match ← write c (.request ⟨Message.protocolVersion, id, method, params⟩) with
  | .error e =>
    modify (Hub.onClient c (·.forget id))
    pure (.error e)
  | .ok () => awaitAnswer c id method cancellation timeout

/-- Counts a request among those of its cancellation for the length of a program. -/
def tracking (cancellation : Option Nat) (r : PendingRequest) (p : Program α) : Program α :=
  match cancellation with
  | none => p
  | some i => do
    let token ← modifyGet fun h =>
      let (token, s) := (h.cancellation i).track r
      (token, h.onCancellation i fun _ => s)
    ensuring (Hub.onCancellation i (·.untrack token)) p

/-- Asks the server for something, unless its stream is closed or the call was cancelled. -/
def request (c : Nat) (method : String) (params : Json) (cancellation : Option Nat)
    (timeout : Duration) : Program (Except HubError Json) := do
  let h ← get
  if !(h.client c).isOpen then pure (.error .connectionClosed)
  else if h.isWithdrawn cancellation then pure (.error .cancelled)
  else
    let id ← modifyGet (Hub.fromClient c takeId)
    giveWay
    if ← modifyGet (Hub.fromClient c (·.register id)) then
      tracking cancellation ⟨(h.client c).serverId, method, id⟩
        (exchange c id method params cancellation timeout)
    else pure (.error .connectionClosed)

/-- Asks for something within the client's own time. -/
def ask (c : Nat) (method : String) (params : Json) (cancellation : Option Nat) :
    Program (Except HubError Json) := do
  request c method params cancellation (← gets (·.client c)).requestTimeout

/-- Asks the server to shut down and tells it to exit, whatever it answers. -/
def shutDown (c : Nat) (timeout : Duration) : Program (Except HubError Unit) := do
  let answer ← request c "shutdown" .null none timeout
  let told ← notify c "exit" .null
  pure (answer.bind fun _ => told)

end Client

end LanguageHub
