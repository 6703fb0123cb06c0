import LanguageHub.Client.Link

/-!
# Clients

A client speaks with one server over a link. It numbers its requests and keeps those that
wait for an answer, collects what the reader took from the link, and keeps the last
diagnostics of each document. What it answers to requests of the server depends on the
settings of its definition alone.
-/

namespace LanguageHub

/-- A folder of the workspace. -/
structure WorkspaceFolder where
  uri : String
  name : String
  deriving DecidableEq, Repr, Inhabited

def WorkspaceFolder.toJson (f : WorkspaceFolder) : Json :=
  .mkObj [("uri", .str f.uri), ("name", .str f.name)]

/-- Whether the server's stream is read. -/
inductive ReaderState where
  | reading
  /-- The stream ended or failed. -/
  | closed
  /-- The reader broke down, and nobody noticed. -/
  | lost
  deriving DecidableEq, Repr, Inhabited

structure Client where
  serverId : String
  /-- The serial of the definition. -/
  definition : Nat
  folders : List WorkspaceFolder
  requestTimeout : Duration
  link : Nat
  reader : ReaderState
  /-- Bytes that do not make a whole frame yet. -/
  buffer : Frame.Bytes
  nextId : Nat
  /-- The requests that wait for an answer. -/
  pending : List RequestId
  /-- The answers that nobody has picked up yet. -/
  answers : List (RequestId × Response)
  /-- The last diagnostics of each document. -/
  diagnostics : List (String × List Json)
  /-- How many use the client; it ends with the last of them. -/
  holders : Nat
  deriving Repr, Inhabited

namespace Client

def new (serverId : String) (definition : Nat) (folders : List WorkspaceFolder)
    (requestTimeout : Duration) (link : Nat) : Client where
  serverId
  definition
  folders
  requestTimeout
  link
  reader := .reading
  buffer := []
  nextId := 1
  pending := []
  answers := []
  diagnostics := []
  holders := 1

def isOpen (c : Client) : Bool := c.reader != .closed

def isDropped (c : Client) : Bool := c.holders == 0

/-- Nothing more will be read. -/
def isOver (c : Client) : Bool := c.reader != .reading || c.isDropped

def hold (c : Client) : Client := { c with holders := c.holders + 1 }

def release (c : Client) : Client := { c with holders := c.holders - 1 }

/-! ## Requests -/

/-- The id of a new request. -/
def takeId (c : Client) : RequestId × Client :=
  (.number c.nextId, { c with nextId := c.nextId + 1 })

/-- Notes that a request waits for an answer; not once the stream is closed. -/
def register (c : Client) (id : RequestId) : Bool × Client :=
  if c.isOpen then (true, { c with pending := c.pending ++ [id] }) else (false, c)

def forget (c : Client) (id : RequestId) : Client :=
  { c with pending := c.pending.filter (· != id) }

def forgetAll (c : Client) : Client := { c with pending := [] }

/-- An answer arrives. One that no request waits for is dropped. -/
def deliver (c : Client) (id : RequestId) (r : Response) : Client :=
  if c.pending.contains id then { c.forget id with answers := c.answers ++ [(id, r)] } else c

/-- The request waits no more: it was answered, or nothing can answer it. -/
def isSettled (c : Client) (id : RequestId) : Bool := !c.pending.contains id

/-- The answer to a request, which is picked up with it. -/
def collect (c : Client) (id : RequestId) : Option Response × Client :=
  (List.lookup id c.answers, { c with answers := c.answers.filter (·.1 != id) })

/-! ## The reader -/

def close (c : Client) : Client := { c with reader := .closed }

/-- A stream that is closed stays closed. -/
def breakDown (c : Client) : Client := if c.isOpen then { c with reader := .lost } else c

/-- The last diagnostics of a document are these. -/
def publish (c : Client) (uri : String) (items : List Json) : Client :=
  { c with diagnostics := (uri, items) :: c.diagnostics.filter (·.1 != uri) }

def diagnosticsOf (c : Client) (uri : String) : List Json :=
  (List.lookup uri c.diagnostics).getD []

/-- Takes note of what the server says without being asked. -/
def heed (c : Client) (n : Notification) : Client :=
  if n.method = "textDocument/publishDiagnostics" then
    match Schema.publishedDiagnostics.read? n.params with
    | none => c
    | some v =>
      c.publish (((v.get? "uri").bind Json.str?).getD "")
        (((v.get? "diagnostics").bind Json.arr?).getD [])
  else c

/-! ## Requests of the server -/

/-- The value below the dot-separated keys; null where a key is missing. -/
def section? (settings : Json) (keys : List (List Char)) : Option Json :=
  keys.foldlM (fun v key => v.get? (String.ofList key)) settings

/-- What the settings say about a section: everything without one. -/
def sectionOf (settings : Option Json) (name : Option String) : Json :=
  match settings, name with
  | none, _ => .null
  | some settings, none => settings
  | some settings, some name =>
    if name = "" then settings
    else (section? settings (Text.splitOn '.' name.toList)).getD .null

/-- The sections that a server asks for; none when it asks wrongly. -/
def askedSections (params : Json) : List (Option String) :=
  match Schema.configurationParams.read? params with
  | none => []
  | some v =>
    (((v.get? "items").bind Json.arr?).getD []).map fun item =>
      (item.get? "section").bind Json.str?

/-- The answer to a request of the server. -/
def answerTo (folders : List WorkspaceFolder) (settings : Option Json) (r : Request) : Message :=
  match r.method with
  | "workspace/configuration" =>
    .success r.id (.arr ((askedSections r.params).map (sectionOf settings)))
  | "workspace/workspaceFolders" => .success r.id (.arr (folders.map (·.toJson)))
  | "client/registerCapability" | "client/unregisterCapability"
  | "window/workDoneProgress/create" => .success r.id .null
  | method => .failure r.id Message.methodNotFound s!"Method '{method}' not supported by client"

end Client

end LanguageHub
