import LanguageHub.Json.Printer
import LanguageHub.Payload.Basic
import LanguageHub.Wire.Frame

/-!
# Messages

A message is a request, a notification or a response. What kind it is shows in its
members: a request has a method and an id, a notification a method alone, and a response
an id alone.
-/

namespace LanguageHub

/-- The name of a request: a number of 64 bits or a text. -/
inductive RequestId where
  | number (n : Int)
  | text (s : String)
  deriving DecidableEq, Repr, Inhabited

namespace RequestId

def toJson : RequestId → Json
  | number n => .num (.int n)
  | text s => .str s

def schema : Schema := .oneOf [Schema.int64, .string]

def ofJson? (v : Json) : Option RequestId :=
  match schema.read? v with
  | some (.num (.int n)) => some (number n)
  | some (.str s) => some (text s)
  | _ => none

/-- The id in a notice of cancellation, where numbers beyond 32 bits are written as text. -/
def toCancelJson : RequestId → Json
  | number n =>
    if Int32.minValue.toInt ≤ n ∧ n ≤ Int32.maxValue.toInt then .num (.int n)
    else .str (toString n)
  | text s => .str s

end RequestId

structure Request where
  version : String
  id : RequestId
  method : String
  params : Json
  deriving Repr, Inhabited

structure Notification where
  version : String
  method : String
  params : Json
  deriving Repr, Inhabited

structure ResponseError where
  code : Int
  message : String
  data : Option Json
  deriving Repr, Inhabited

/-- An answer. A result of null reads as none. -/
structure Response where
  version : String
  id : Option RequestId
  result : Option Json
  error : Option ResponseError
  deriving Repr, Inhabited

inductive Message where
  | request (r : Request)
  | notification (n : Notification)
  | response (r : Response)
  deriving Repr, Inhabited

namespace Message

def protocolVersion : String := "2.0"

/-- The code for a method that is not known. -/
def methodNotFound : Int := -32601

/-! ## Reading -/

def requestSchema : Schema := .record [
  Schema.required "jsonrpc" .string,
  Schema.required "id" RequestId.schema,
  Schema.required "method" .string,
  ("params", .defaulted, .any)]

def notificationSchema : Schema := .record [
  Schema.required "jsonrpc" .string,
  Schema.required "method" .string,
  ("params", .defaulted, .any)]

def errorSchema : Schema := .record [
  Schema.required "code" Schema.int64,
  Schema.required "message" .string,
  Schema.optional "data" .any]

def responseSchema : Schema := .record [
  Schema.required "jsonrpc" .string,
  Schema.optional "id" RequestId.schema,
  Schema.optional "result" .any,
  Schema.optional "error" errorSchema]

end Message

def Request.ofJson? (v : Json) : Option Request := do
  let v ← Message.requestSchema.read? v
  let version ← (v.get? "jsonrpc").bind Json.str?
  let id ← (v.get? "id").bind RequestId.ofJson?
  let method ← (v.get? "method").bind Json.str?
  let params ← v.get? "params"
  pure ⟨version, id, method, params⟩

def Notification.ofJson? (v : Json) : Option Notification := do
  let v ← Message.notificationSchema.read? v
  let version ← (v.get? "jsonrpc").bind Json.str?
  let method ← (v.get? "method").bind Json.str?
  let params ← v.get? "params"
  pure ⟨version, method, params⟩

def ResponseError.ofJson? (v : Json) : Option ResponseError := do
  let v ← Message.errorSchema.read? v
  let code ← (v.get? "code").bind Json.int?
  let message ← (v.get? "message").bind Json.str?
  pure ⟨code, message, v.get? "data"⟩

def Response.ofJson? (v : Json) : Option Response := do
  let v ← Message.responseSchema.read? v
  let version ← (v.get? "jsonrpc").bind Json.str?
  let id := (v.get? "id").bind RequestId.ofJson?
  let error := (v.get? "error").bind ResponseError.ofJson?
  pure ⟨version, id, v.get? "result", error⟩

namespace Message

/-- The kind that a value's members show, when the rest of it fits. -/
def classify? (v : Json) : Option Message :=
  let hasMethod := ((v.get? "method").bind Json.str?).isSome
  let hasId := (v.present? "id").isSome
  match hasMethod, hasId with
  | true, true => (Request.ofJson? v).map .request
  | true, false => (Notification.ofJson? v).map .notification
  | false, true => (Response.ofJson? v).map .response
  | false, false => none

/-! ## Writing -/

/-- The text of an object with its members in this order. -/
def orderedText (members : List (String × List Char)) : List Char :=
  let parts := members.map fun (name, value) => Json.quote name ++ ':' :: value
  '{' :: (",".toList.intercalate parts ++ ['}'])

end Message

def ResponseError.text (e : ResponseError) : List Char :=
  Message.orderedText ([("code", Json.integerText e.code), ("message", Json.quote e.message)] ++
    (e.data.map fun d => ("data", d.text)).toList)

def Request.text (r : Request) : List Char :=
  Message.orderedText [("jsonrpc", Json.quote r.version), ("id", r.id.toJson.text),
    ("method", Json.quote r.method), ("params", r.params.text)]

def Notification.text (n : Notification) : List Char :=
  Message.orderedText [("jsonrpc", Json.quote n.version), ("method", Json.quote n.method),
    ("params", n.params.text)]

def Response.text (r : Response) : List Char :=
  Message.orderedText ([("jsonrpc", Json.quote r.version),
    ("id", (Json.ofOption RequestId.toJson r.id).text)] ++
    (r.result.map fun v => ("result", v.text)).toList ++
    (r.error.map fun e => ("error", e.text)).toList)

namespace Message

/-- The characters of the body of the message's frame. -/
def text : Message → List Char
  | request r => r.text
  | notification n => n.text
  | response r => r.text

def body (m : Message) : String := String.ofList m.text

def frame (m : Message) : Frame.Bytes := Frame.around m.text

theorem frame_eq_encode (m : Message) : m.frame = Frame.encode m.body := by
  rw [frame, Frame.encode, body, String.toList_ofList]

/-! ## Building -/

def ofRequest (id : Int) (method : String) (params : Json) : Message :=
  .request ⟨protocolVersion, .number id, method, params⟩

def ofNotification (method : String) (params : Json) : Message :=
  .notification ⟨protocolVersion, method, params⟩

def success (id : RequestId) (result : Json) : Message :=
  .response ⟨protocolVersion, some id, some result, none⟩

def failure (id : RequestId) (code : Int) (message : String) : Message :=
  .response ⟨protocolVersion, some id, none, some ⟨code, message, none⟩⟩

end Message

end LanguageHub
