import LanguageHub.Duration
import LanguageHub.Json.Basic
import LanguageHub.Text.Edit

/-!
# Failures

A failure of one server stays with that server: merged requests report it beside the
answers of the others.
-/

namespace LanguageHub

inductive HubError where
  /-- The server could not be started. -/
  | processStart (server reason : String)
  /-- The server did not answer the opening handshake in time. -/
  | handshakeTimeout (server : String) (timeout : Duration)
  /-- The server answered the opening handshake with something unusable. -/
  | handshakeProtocol (server reason : String)
  | requestTimeout (method : String) (timeout : Duration)
  | cancelled
  /-- The server answered a request with an error. -/
  | serverError (code : Int) (text : String)
  | connectionClosed
  | notStarted (server : String)
  | definitionNotFound (id : String)
  | invalidPattern (pattern reason : String)
  | invalidPath (reason : String)
  | invalidEdit (reason : String)
  | transport (reason : String)
  /-- A message of the server does not have the expected shape. -/
  | malformedPayload
  deriving DecidableEq, Repr

namespace HubError

/-- The code by which a server reports a cancelled request. -/
def requestCancelledCode : Int := -32800

/-- Cancelled by this side or reported as cancelled by the server. -/
def isCancelled : HubError → Bool
  | cancelled => true
  | serverError code _ => code == requestCancelledCode
  | _ => false

/-- The name of the kind of failure. -/
def kind : HubError → String
  | processStart .. => "ProcessStart"
  | handshakeTimeout .. => "HandshakeTimeout"
  | handshakeProtocol .. => "HandshakeProtocol"
  | requestTimeout .. => "RequestTimeout"
  | cancelled => "Cancelled"
  | serverError .. => "Server"
  | connectionClosed => "ConnectionClosed"
  | notStarted .. => "NotStarted"
  | definitionNotFound .. => "DefinitionNotFound"
  | invalidPattern .. => "InvalidPattern"
  | invalidPath .. => "InvalidPath"
  | invalidEdit .. => "InvalidEdit"
  | transport .. => "Io"
  | malformedPayload => "Json"

def message : HubError → String
  | processStart server reason => s!"unable to start language server '{server}': {reason}"
  | handshakeTimeout server timeout =>
    s!"language server '{server}' did not answer initialize within {timeout.shown}"
  | handshakeProtocol server reason => s!"language server '{server}' rejected initialize: {reason}"
  | requestTimeout method timeout => s!"request '{method}' timed out after {timeout.shown}"
  | cancelled => "request cancelled"
  | serverError code text => s!"LSP error {code}: {text}"
  | connectionClosed => "language server connection closed"
  | notStarted server => s!"language server '{server}' is not started"
  | definitionNotFound id => s!"no language server definition with id '{id}'"
  | invalidPattern pattern reason => s!"invalid file pattern '{pattern}': {reason}"
  | invalidPath reason => s!"invalid document path: {reason}"
  | invalidEdit reason => s!"invalid edit: {reason}"
  | transport reason => s!"I/O error: {reason}"
  | malformedPayload => "malformed LSP payload"

def toJson (e : HubError) : Json := .mkObj [("error", .str e.kind), ("message", .str e.message)]

def ofEditFault (f : EditFault) : HubError := invalidEdit f.message

end HubError

/-- The failure that JSON describes by its kind and its parts. -/
def HubError.ofJson? (v : Json) : Option HubError :=
  let text := fun key => (v.textAt? key).getD ""
  let timeout := Duration.mk ((v.natAt? "timeout_ns").getD 0)
  match text "kind" with
  | "ProcessStart" => some (.processStart (text "server") (text "reason"))
  | "HandshakeTimeout" => some (.handshakeTimeout (text "server") timeout)
  | "HandshakeProtocol" => some (.handshakeProtocol (text "server") (text "reason"))
  | "RequestTimeout" => some (.requestTimeout (text "method") timeout)
  | "Cancelled" => some .cancelled
  | "Server" => some (.serverError ((v.intAt? "code").getD 0) (text "message"))
  | "ConnectionClosed" => some .connectionClosed
  | "NotStarted" => some (.notStarted (text "server"))
  | "DefinitionNotFound" => some (.definitionNotFound (text "id"))
  | "InvalidPattern" => some (.invalidPattern (text "pattern") (text "reason"))
  | "InvalidPath" => some (.invalidPath (text "path"))
  | "InvalidEdit" => some (.invalidEdit (text "edit"))
  | "Io" => some (.transport (text "message"))
  | "Json" => some .malformedPayload
  | _ => none

end LanguageHub
