import LanguageHub.Json.Printer
import LanguageHub.Json.Reader
import LanguageHub.MockServer.CommandLine
import LanguageHub.MockServer.Document

/-!
# The mock server

A language server for tests. It keeps the documents it is told about, answers requests
from them, and can be told to hang, to fail or to stop. A request without an answer waits
for a notice that cancels it.
-/

namespace LanguageHub

structure MockServer where
  settings : MockSettings
  documents : List (String × String)
  /-- The ids of requests without an answer, as they are written. -/
  hung : List String
  responses : Nat
  nextRequest : Nat
  deriving Repr, Inhabited

/-- How the server ends. -/
inductive MockEnding where
  | exit
  | dropped
  | crashed
  deriving DecidableEq, Repr

def MockEnding.status : MockEnding → Nat
  | exit => 0
  | dropped => 1
  | crashed => 101

/-- What the server sends on a message, and whether it ends then. -/
structure MockStep where
  server : MockServer
  sent : List Json
  ending : Option MockEnding
  deriving Repr, Inhabited

namespace MockServer

def start (settings : MockSettings) : MockServer := ⟨settings, [], [], 0, 1⟩

/-! ## Parts of messages -/

def textAt (v : Json) (member name : String) : String :=
  (((v.get? member).bind (·.get? name)).bind Json.str?).getD ""

def documentUri (params : Json) : String := textAt params "textDocument" "uri"

def document? (s : MockServer) (uri : String) : Option (List Char) :=
  (List.lookup uri s.documents).map String.toList

def setDocument (s : MockServer) (uri text : String) : MockServer :=
  { s with documents := (uri, text) :: s.documents.filter (·.1 != uri) }

def rangeJson (startLine start stopLine stop : Nat) : Json :=
  Range.toJson ⟨⟨startLine, start⟩, ⟨stopLine, stop⟩⟩
where
  Range.toJson (r : Range) : Json :=
    let position (p : Position) : Json :=
      .mkObj [("line", .ofNat p.line), ("character", .ofNat p.character)]
    .mkObj [("start", position r.start), ("end", position r.stop)]

def locationJson (uri : String) (line start stop : Nat) : Json :=
  .mkObj [("uri", .str uri), ("range", rangeJson line start line stop)]

/-- The line and the column that a request points at. -/
def place? (params : Json) : Option (Nat × Nat) := do
  let p ← params.get? "position"
  let line ← (p.get? "line").bind Json.nat?
  let column ← (p.get? "character").bind Json.nat?
  pure (line, column)

/-- The word that a request points at. -/
def wordAt (s : MockServer) (params : Json) : Except MockText.Fault (Option (List Char)) :=
  match s.document? (documentUri params), place? params with
  | some text, some (line, column) => MockText.extractWord text line column
  | _, _ => pure none

/-- Where the word that a request points at occurs in its document. -/
def occurrencesAt (s : MockServer) (params : Json) :
    Except MockText.Fault (List (Nat × Nat × Nat)) := do
  let word? ← s.wordAt params
  match word?, s.document? (documentUri params) with
  | some word, some text => MockText.occurrences text word
  | _, _ => pure []

/-! ## Answers -/

def capabilities (settings : MockSettings) : Json :=
  let kind : Json := .ofInt settings.sync.code
  let sync :=
    if settings.syncKindOnly then kind
    else .mkSparse [("openClose", some (.bool true)), ("change", some kind),
      ("save", if settings.noSave then none
        else some (.mkObj [("includeText", .bool settings.saveIncludeText)]))]
  let on (name : String) : String × Json := (name, .bool true)
  let plain (name : String) : String × Json := (name, .obj [])
  let all := [("textDocumentSync", sync), on "hoverProvider", plain "completionProvider",
    plain "signatureHelpProvider", on "declarationProvider", on "definitionProvider",
    on "typeDefinitionProvider", on "implementationProvider", on "referencesProvider",
    on "documentHighlightProvider", plain "documentLinkProvider", plain "codeLensProvider",
    on "foldingRangeProvider", on "documentFormattingProvider",
    on "documentRangeFormattingProvider",
    ("inlayHintProvider", .mkObj [("resolveProvider", .bool true)])]
  .mkObj (all.filter fun (name, _) => !settings.without.contains name)

def initializeAnswer (settings : MockSettings) : Json :=
  .mkObj [("capabilities", capabilities settings),
    ("serverInfo", .mkObj [("name", .str settings.name), ("version", .str "0.0.0")])]

def hoverAnswer (s : MockServer) (params : Json) : Except MockText.Fault Json := do
  let word? ← s.wordAt params
  let word := String.ofList (word?.getD [])
  pure (.mkObj [("contents", .mkObj [("kind", .str "markdown"),
    ("value", .str (s.settings.name ++ ": `" ++ word ++ "`"))])])

def definitionAnswer (s : MockServer) (params : Json) : Except MockText.Fault Json := do
  let uri := documentUri params
  let word? ← s.wordAt params
  match word?, s.document? uri with
  | some word, some text =>
    match MockText.definition text word with
    | some (line, start, stop) => pure (locationJson uri line start stop)
    | none => pure .null
  | _, _ => pure .null

def referencesAnswer (s : MockServer) (params : Json) : Except MockText.Fault Json := do
  let found ← s.occurrencesAt params
  pure (.arr (found.map fun (line, start, stop) =>
    locationJson (documentUri params) line start stop))

def highlightsAnswer (s : MockServer) (params : Json) : Except MockText.Fault Json := do
  let found ← s.occurrencesAt params
  pure (.arr (found.map fun (line, start, stop) =>
    .mkObj [("range", rangeJson line start line stop), ("kind", .ofNat 1)]))

def foldingAnswer (s : MockServer) (params : Json) : Json :=
  let lines := match s.document? (documentUri params) with
    | some text => (Text.lines text).length
    | none => 0
  if lines < 2 then .arr []
  else .arr [.mkObj [("startLine", .ofNat 0), ("endLine", .ofNat (lines - 1))]]

def rangeFormattingAnswer (s : MockServer) (params : Json) : Json :=
  let start := ((params.get? "range").bind (·.get? "start")).getD
    (.mkObj [("line", .ofNat 0), ("character", .ofNat 0)])
  .arr [.mkObj [("range", .mkObj [("start", start), ("end", start)]),
    ("newText", .str ("// range formatted by " ++ s.settings.name ++ "\n"))]]

/-- What a request's method leads to. -/
inductive Reply where
  | result (v : Json)
  | unknown
  /-- The server breaks. -/
  | crash

def Reply.ofAnswer : Except MockText.Fault Json → Reply
  | .ok v => .result v
  | .error _ => .crash

/-- The hint with a tooltip; only an object or null can take one. -/
def resolveReply (s : MockServer) (params : Json) : Reply :=
  let tooltip : Json := .str ("resolved by " ++ s.settings.name)
  match params with
  | .obj fields => .result (.obj (Json.insertField "tooltip" tooltip fields))
  | .null => .result (.mkObj [("tooltip", tooltip)])
  | _ => .crash

def reply (s : MockServer) (method : String) (params : Json) : Reply :=
  let name := s.settings.name
  match method with
  | "initialize" => .result (initializeAnswer s.settings)
  | "shutdown" => .result .null
  | "textDocument/hover" => .ofAnswer (s.hoverAnswer params)
  | "textDocument/definition" => .ofAnswer (s.definitionAnswer params)
  | "textDocument/declaration" => .ofAnswer (s.definitionAnswer params)
  | "textDocument/typeDefinition" => .ofAnswer (s.definitionAnswer params)
  | "textDocument/implementation" => .ofAnswer (s.definitionAnswer params)
  | "textDocument/references" => .ofAnswer (s.referencesAnswer params)
  | "textDocument/documentHighlight" => .ofAnswer (s.highlightsAnswer params)
  | "textDocument/completion" => .result (.arr [.mkObj [("label", .str (name ++ "-item"))]])
  | "textDocument/signatureHelp" =>
    .result (.mkObj [("signatures", .arr [.mkObj [("label", .str (name ++ "(x)"))]])])
  | "textDocument/codeLens" =>
    .result (.arr [.mkObj [("range", rangeJson 0 0 0 0),
      ("command", .mkObj [("title", .str name), ("command", .str "mockls.lens")])]])
  | "textDocument/foldingRange" => .result (s.foldingAnswer params)
  | "textDocument/documentLink" => .result (.arr [])
  | "textDocument/formatting" =>
    .result (.arr [.mkObj [("range", rangeJson 0 0 0 0),
      ("newText", .str ("// formatted by " ++ name ++ "\n"))]])
  | "textDocument/rangeFormatting" => .result (s.rangeFormattingAnswer params)
  | "textDocument/inlayHint" =>
    .result (.arr [.mkObj [("position", .mkObj [("line", .ofNat 0), ("character", .ofNat 0)]),
      ("label", .str (name ++ "-hint")), ("data", .mkObj [("server", .str name)])]])
  | "inlayHint/resolve" => s.resolveReply params
  | _ => .unknown

/-! ## Messages -/

def stay (s : MockServer) : MockStep := ⟨s, [], none⟩

def breakDown (s : MockServer) : MockStep := ⟨s, [], some .crashed⟩

/-- A message that answers a request. -/
def isResponse (v : Json) : Bool := (v.get? "method").isNone

/-- Sends a response, the last one when so many were asked for. -/
def respond (s : MockServer) (response : Json) : MockStep :=
  let s := { s with responses := s.responses + 1 }
  ⟨s, [response], if s.settings.dropAfter.any (· ≤ s.responses) then some .dropped else none⟩

def respondResult (s : MockServer) (id result : Json) : MockStep :=
  s.respond (.mkObj [("jsonrpc", .str "2.0"), ("id", id), ("result", result)])

def respondError (s : MockServer) (id : Json) (code : Int) (message : String) : MockStep :=
  s.respond (.mkObj [("jsonrpc", .str "2.0"), ("id", id),
    ("error", .mkObj [("code", .ofInt code), ("message", .str message)])])

def handleRequest (s : MockServer) (method : String) (id params : Json) : MockStep :=
  if s.settings.hangOn.contains method then
    { s with hung := id.render :: s.hung.filter (· != id.render) }.stay
  else if s.settings.failOn.contains method then
    s.respondError id (-32603) ("mockls: configured to fail on " ++ method)
  else
    match s.reply method params with
    | .result v => s.respondResult id v
    | .unknown => s.respondError id (-32601) ("mockls: method not found: " ++ method)
    | .crash => s.breakDown

/-- One diagnostic for the start of a document. -/
def diagnosticsNotice (uri : String) : Json :=
  .mkObj [("jsonrpc", .str "2.0"), ("method", .str "textDocument/publishDiagnostics"),
    ("params", .mkObj [("uri", .str uri), ("diagnostics", .arr [.mkObj [
      ("range", rangeJson 0 0 0 1), ("severity", .ofNat 2), ("source", .str "mockls"),
      ("message", .str "mockls: mock diagnostic")]])])]

def publish (s : MockServer) (uri : String) : MockStep :=
  ⟨s, if s.settings.noDiagnostics then [] else [diagnosticsNotice uri], none⟩

def configurationRequest (n : Nat) : Json :=
  .mkObj [("jsonrpc", .str "2.0"), ("id", .str ("mockls-" ++ toString n)),
    ("method", .str "workspace/configuration"),
    ("params", .mkObj [("items", .arr [.mkObj [("section", .str "mockls")],
      .mkObj [("section", .str "missing")]])])]

def handleNotification (s : MockServer) (method : String) (params : Json) : MockStep :=
  match method with
  | "initialized" =>
    if s.settings.sendConfigurationRequest then
      ⟨{ s with nextRequest := s.nextRequest + 1 }, [configurationRequest s.nextRequest], none⟩
    else s.stay
  | "$/cancelRequest" =>
    match params.get? "id" with
    | none => s.stay
    | some id =>
      if s.hung.contains id.render then
        { s with hung := s.hung.filter (· != id.render) }.respondError id (-32800)
          "mockls: request cancelled"
      else s.stay
  | "textDocument/didOpen" =>
    let uri := documentUri params
    (s.setDocument uri (textAt params "textDocument" "text")).publish uri
  | "textDocument/didChange" =>
    let uri := documentUri params
    let changes := ((params.get? "contentChanges").bind Json.arr?).getD []
    match s.document? uri with
    | none => s.publish uri
    | some text =>
      match MockText.applyChanges text changes with
      | .ok text => (s.setDocument uri (String.ofList text)).publish uri
      | .error _ => s.breakDown
  | "textDocument/didClose" =>
    { s with documents := s.documents.filter (·.1 != documentUri params) }.stay
  | "exit" => ⟨s, [], some .exit⟩
  | _ => s.stay

/-- A message with a method and an id, null included, is a request; one with a method alone
a notification; all others are responses and not looked at. -/
def handle (s : MockServer) (message : Json) : MockStep :=
  let params := (message.get? "params").getD .null
  match (message.get? "method").bind Json.str?, message.get? "id" with
  | some method, some id => s.handleRequest method id params
  | some method, none => s.handleNotification method params
  | none, _ => s.stay

/-! ## Input -/

/-- What the mock server makes of its input. It waits for ever at a frame that it cannot read. -/
inductive Reading where
  | body (text : String) (rest : Frame.Bytes)
  | waiting
  | crash

/-- The length in the last header line that starts with the name of the length, if that line
has a number. -/
def announcedLength (lines : List (List Char)) : Option Nat :=
  let name := "content-length:".toList
  match (lines.filter fun l => name.isPrefixOf (Text.lowered l)).getLast? with
  | none => none
  | some line =>
    ((Text.splitOnce? ':' line).bind fun (_, v) => Text.natural? (Text.trim v)).filter
      (· < Frame.addressLimit)

def nextBody (buffer : Frame.Bytes) : Reading :=
  match Frame.splitHead? buffer with
  | none => .waiting
  | some (head, rest) =>
    match (Frame.textOf? head).bind fun t => announcedLength (Text.lines t.toList) with
    | none => .waiting
    | some n =>
      if Frame.addressLimit ≤ head.length + 4 + n then .crash
      else if rest.length < n then .waiting
      else
        match Frame.textOf? (rest.take n) with
        | none => .waiting
        | some body => .body body (rest.drop n)

theorem length_nextBody_lt {buffer rest : Frame.Bytes} {text : String}
    (h : nextBody buffer = .body text rest) : rest.length < buffer.length := by
  unfold nextBody at h
  split at h
  · simp at h
  · next head tail hs =>
    have := Frame.length_splitHead? hs
    split at h
    · simp at h
    · split at h
      · simp at h
      · split at h
        · simp at h
        · split at h
          · simp at h
          · simp only [Reading.body.injEq] at h
            obtain ⟨_, rfl⟩ := h
            simp only [List.length_drop]
            omega

/-- What a whole run sends and records. -/
structure MockRun where
  server : MockServer
  sent : List Json
  recorded : List Json
  ending : Option MockEnding
  rest : Frame.Bytes

/-- Handles every message in the buffer, until the server ends. -/
def run (s : MockServer) (buffer : Frame.Bytes) : MockRun :=
  match h : nextBody buffer with
  | .waiting => ⟨s, [], [], none, buffer⟩
  | .crash => ⟨s, [], [], some .crashed, buffer⟩
  | .body text rest =>
    have := length_nextBody_lt h
    match Json.read? text with
    | none => run s rest
    | some message =>
      let step := s.handle message
      match step.ending with
      | some e => ⟨step.server, step.sent, [message], some e, rest⟩
      | none =>
        let later := run step.server rest
        { later with sent := step.sent ++ later.sent, recorded := message :: later.recorded }
termination_by buffer.length

end MockServer

end LanguageHub
