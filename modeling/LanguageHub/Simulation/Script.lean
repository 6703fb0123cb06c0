import LanguageHub.Duration
import LanguageHub.Json.Number
import LanguageHub.Json.Printer
import LanguageHub.Json.Reader
import LanguageHub.Wire.Frame
import LanguageHub.Wire.Message

/-!
# Scripted servers

A scripted server answers each method with the next entry of a script, of which the last
one stays. It answers the handshake and the shutdown by itself and refuses all else, and it
hangs up when it is told to exit. Scripts describe a frame by its message, or raw, by its bytes:
as text or as pairs of hexadecimal digits.
-/

namespace LanguageHub.Frame

/-! ## Described bytes -/

/-- The bytes of pairs of hexadecimal digits; another character counts as zero. -/
def ofHex : List Char → Bytes
  | a :: b :: rest =>
    .ofNat ((Json.hexValue? a).getD 0 * 16 + (Json.hexValue? b).getD 0) :: ofHex rest
  | _ => []

def describedBytes (v : Json) : Bytes :=
  match v.textAt? "hex" with
  | some digits => ofHex digits.toList
  | none => bytesOf ((v.textAt? "text").getD "").toList

def described (v : Json) : Bytes :=
  match v.get? "raw" with
  | some raw => describedBytes raw
  | none => encode v.render

end LanguageHub.Frame

/-! ## Scripts -/

namespace LanguageHub.Simulation

/-- What a server answers to a request. -/
inductive ScriptedAnswer where
  | result (value : Json)
  | failure (error : Json)
  /-- Nothing at all. -/
  | silence
  /-- The server hangs up instead. -/
  | hangUp
  deriving Repr, Inhabited

structure ScriptedReply where
  answer : ScriptedAnswer
  /-- The id in the answer, when it is another one than the request's. -/
  id : Option Json
  delay : Duration
  /-- What the server sends before and after its answer. -/
  before : List Json
  after : List Json
  deriving Repr, Inhabited

def ScriptedReply.ofAnswer (answer : ScriptedAnswer) : ScriptedReply := ⟨answer, none, ⟨0⟩, [], []⟩

/-- A reply as scripts write it: without a word on the result, it is null. -/
def ScriptedReply.ofJson (v : Json) : ScriptedReply :=
  let isSet := fun key => (v.boolAt? key).getD false
  { answer :=
      if isSet "hang" then .silence
      else if isSet "close" then .hangUp
      else match v.get? "error" with
        | some e => .failure e
        | none => .result ((v.get? "result").getD .null)
    id := v.get? "id"
    delay := .ofMillis ((v.natAt? "delay_ms").getD 0)
    before := v.itemsAt "before"
    after := v.itemsAt "then" }

/-- What a server sends at once, when, and whether it hangs up then. -/
structure Sending where
  delay : Duration
  bytes : Frame.Bytes
  hangsUp : Bool
  deriving Repr, Inhabited

namespace ScriptedReply

/-- The answer to a request, when there is one. -/
def answerTo (r : ScriptedReply) (id : RequestId) : List Json :=
  let withId := fun (member : String × Json) =>
    [Json.mkObj [("jsonrpc", .str Message.protocolVersion), ("id", r.id.getD id.toJson), member]]
  match r.answer with
  | .result value => withId ("result", value)
  | .failure error => withId ("error", error)
  | .silence | .hangUp => []

def hangsUp (r : ScriptedReply) : Bool :=
  match r.answer with
  | .hangUp => true
  | _ => false

/-- What a server sends on a request, or on a notification without an id. -/
def sending (r : ScriptedReply) (id : Option RequestId) : Sending :=
  let answer := (id.map r.answerTo).getD []
  ⟨r.delay, (r.before ++ answer ++ r.after).flatMap Frame.described, r.hangsUp⟩

end ScriptedReply

structure ScriptedServer where
  id : String
  capabilities : Json
  /-- The replies to each method that are still to come. -/
  script : List (String × List ScriptedReply)
  deriving Repr, Inhabited

namespace ScriptedServer

/-- A server as scripts describe it: its capabilities and its replies to each method. -/
def ofJson (id : String) (v : Json) : ScriptedServer where
  id
  capabilities := (v.get? "capabilities").getD (.obj [])
  script := ((v.get? "script").getD .null).members.map fun (method, replies) =>
    (method, (replies.arr?.getD [replies]).map ScriptedReply.ofJson)

/-- The replies to a method are these from now on. -/
def setScript (method : String) (replies : List ScriptedReply) (s : ScriptedServer) :
    ScriptedServer :=
  { s with script := (method, replies) :: s.script.filter (·.1 != method) }

/-- The next reply to a method. -/
def takeReply (method : String) (s : ScriptedServer) : Option ScriptedReply × ScriptedServer :=
  match List.lookup method s.script with
  | some (r :: r' :: rest) => (some r, s.setScript method (r' :: rest))
  | some [r] => (some r, s)
  | _ => (none, s)

/-- What the server answers without a script. -/
def ownAnswer (s : ScriptedServer) (method : String) : ScriptedAnswer :=
  match method with
  | "initialize" => .result (.mkObj [("capabilities", s.capabilities)])
  | "shutdown" => .result .null
  | method => .failure (.mkObj [("code", .ofInt Message.methodNotFound),
      ("message", .str ("no " ++ method))])

/-- What the server does when it gets a message. -/
def react (m : Message) (s : ScriptedServer) : List Sending × ScriptedServer :=
  match m with
  | .response _ => ([], s)
  | .request r =>
    let (reply, s') := s.takeReply r.method
    ([(reply.getD (.ofAnswer (s.ownAnswer r.method))).sending (some r.id)], s')
  | .notification n =>
    let (reply, s') := s.takeReply n.method
    let scripted := (reply.map (·.sending none)).toList
    (scripted ++ (if n.method = "exit" then [⟨⟨0⟩, [], true⟩] else []), s')

end ScriptedServer

end LanguageHub.Simulation
