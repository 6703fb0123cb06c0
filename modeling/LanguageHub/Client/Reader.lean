import LanguageHub.Client.Calls
import LanguageHub.Json.Reader

/-!
# Listening to a server

The reader takes what the server sends from the link, gives answers to the requests that
wait for them and answers the server's own requests. When the stream ends or fails, the
client is closed, and every request that still waits ends with it.
-/

namespace LanguageHub.Client

open Routine (get gets modify modifyGet waitUntil giveWay)

/-- How much is read at once. -/
def readLimit : Nat := 4096

/-- Deals with one message. A response without an id is for nobody. -/
def heedMessage (c : Nat) : Message → Program Unit
  | .response r =>
    match r.id with
    | none => pure ()
    | some id => do
      giveWay
      modify (Hub.onClient c (·.deliver id r))
  | .request r => do
    let h ← get
    let client := h.client c
    let settings := ((h.registry.object? client.definition).getD default).settings
    let _ ← write c (answerTo client.folders settings r)
  | .notification n => modify (Hub.onClient c (·.heed n))

/-- Deals with the body of a frame. One that is no message means nothing. -/
def heedBody (c : Nat) (body : String) : Program Unit :=
  match (Json.read? body).bind Message.classify? with
  | some m => heedMessage c m
  | none => pure ()

def heedAll (c : Nat) : List String → Program Unit
  | [] => pure ()
  | body :: rest => do
    heedBody c body
    heedAll c rest

/-- Takes the frames that are complete out of the buffer; whether the reader goes on. -/
def heedFrames (c : Nat) (bytes : Frame.Bytes) : Program Bool := do
  let (bodies, stop) := Frame.drain ((← gets (·.client c)).buffer ++ bytes)
  heedAll c bodies
  match stop with
  | .waiting rest =>
    modify (Hub.onClient c fun client => { client with buffer := rest })
    pure true
  | .cleared _ =>
    modify (Hub.onClient c fun client => { client with buffer := [] })
    pure true
  | .broken =>
    modify (Hub.onClient c breakDown)
    pure false

/-- Reads once; whether the reader goes on. -/
def readOnce (c : Nat) : Program Bool := do
  waitUntil fun h => (h.linkOf c).isReadable
  match ← modifyGet fun h => h.fromLink (h.client c).link (·.read readLimit) with
  | .bytes received => heedFrames c received
  | .ended =>
    modify (Hub.onClient c close)
    giveWay
    modify (Hub.onClient c forgetAll)
    pure false

/-- Reads once, unless nobody uses the client any more; whether the reader goes on. -/
def listen (c : Nat) : Program Bool := do
  pure ((← (readOnce c).untilStopped fun h => (h.client c).isDropped).getD false)

end LanguageHub.Client
