import LanguageHub.Hub.Routing
import LanguageHub.Client.Calls
import LanguageHub.Merge.Request

/-!
# Asking for features

A question about a document goes to the started sessions that can answer it, chosen when
it is asked. Edits that format a document come from one server alone.
-/

namespace LanguageHub

open Routine (get gets modify modifyGet)

namespace Session

/-- Asks the session's server; the answer must be readable. -/
def ask (s : Nat) (method : String) (params : Json) (cancellation : Option Nat)
    (read : Json → Option α) : Program (Except HubError α) := do
  match ((← get).session s).client? with
  | .error e => pure (.error e)
  | .ok c =>
    let answer ← Client.holding c (Client.ask c method params cancellation)
    pure (answer.bind fun v =>
      match read v with
      | some a => .ok a
      | none => .error .malformedPayload)

end Session

namespace Feature

/-- Usages of one kind. -/
def usagesIn (s : Nat) (uri : String) (position : Position) (cancellation : Nat)
    (kind : UsageKind) : Program (UsageKind × Except HubError (List Location)) := do
  let found ← Session.ask s kind.method (kind.params uri position) (some cancellation)
    kind.locations?
  pure (kind, found)

/-- The usages of all kinds in their order. A kind that failed adds none, but a call that was
cancelled fails. -/
def gather : List (UsageKind × Except HubError (List Location)) → Except HubError (List Usage)
  | [] => .ok []
  | (kind, .ok locations) :: rest => (gather rest).map (locations.map (Usage.mk kind) ++ ·)
  | (_, .error .cancelled) :: _ => .error .cancelled
  | (_, .error _) :: rest => gather rest

/-- Usages of every kind that the session's server supports, asked for side by side. -/
def allUsages (s : Nat) (uri : String) (position : Position) (cancellation : Nat) :
    Program (Except HubError (List Json)) := do
  let capabilities := ((← get).session s).capabilities?.getD .none
  let kinds := UsageKind.all.filter (·.isSupported capabilities)
  let results ← Routine.all (kinds.map (usagesIn s uri position cancellation))
  pure ((gather results).map (·.map Usage.toJson))

/-- What one session has to say. -/
def requestTo (feature : Feature) (uri : String) (cancellation s : Nat) :
    Program (ServerAnswer Json) := do
  let serverId := ((← get).session s).serverId
  let answer ← match feature with
    | .usages position => allUsages s uri position cancellation
    | feature =>
      Session.ask s feature.method (feature.params uri) (some cancellation)
        (feature.items? serverId)
  pure (serverId, answer)

end Feature

namespace FeatureRequest

/-- Chooses the sessions for a question, which gets a cancellation of its own. -/
def new (feature : Feature) (document : DocumentRef) (h : Hub) : FeatureRequest × Hub :=
  let sessions := h.eligibleSessions document feature.isSupported
  let (cancellation, h) := h.newCancellation
  (⟨feature, document.uri, sessions, cancellation⟩, h)

/-- Asks the chosen sessions. -/
def run (r : FeatureRequest) : Program (Except HubError (Merged Json)) :=
  Merge.call r.feature.method r.cancellation
    (r.sessions.map (r.feature.requestTo r.uri r.cancellation))

end FeatureRequest

/-! ## Formatting -/

namespace Hub

/-- The edits in an answer; null is none. -/
def editsOf : Json → Option (List TextEdit)
  | .null => some []
  | v => v.arr?.bind (·.mapM TextEdit.ofJson?)

/-- How a document is to be formatted by a first server: only the range, when one is given
and some server can do that, or else all of it. -/
def formatter? (h : Hub) (document : DocumentRef) (options : Json) (range : Option Range) :
    Option (Nat × String × Json) :=
  let first := fun can => (h.eligibleSessions document can).head?
  let params := documentParams document.uri ++ [("options", options)]
  let ranged := range.bind fun r => (first (·.supportsRangeFormatting)).map fun s =>
    (s, "textDocument/rangeFormatting", Json.mkObj (params ++ [("range", r.toJson)]))
  ranged.or ((first (·.supportsFormatting)).map fun s =>
    (s, "textDocument/formatting", Json.mkObj params))

/-- The edits that format a document; none without a server for that. -/
def format (document : DocumentRef) (options : Json) (range : Option Range)
    (cancellation : Option Nat) : Program (Except HubError (List TextEdit)) := do
  match (← get).formatter? document options range with
  | none => pure (.ok [])
  | some (s, method, params) => Session.ask s method params cancellation editsOf

/-- Completes an inlay hint at the server that gave it; without that server, or when it does
not complete hints, the hint stays as it is. -/
def resolveInlayHint (document : DocumentRef) (serverId : String) (hint : Json)
    (cancellation : Option Nat) : Program (Except HubError Json) := do
  let h ← get
  match (h.startedSessionsFor document).find? fun s => (h.session s).serverId == serverId with
  | none => pure (.ok hint)
  | some s =>
    if (h.session s).capabilities?.any (·.supportsInlayHintResolve) then
      Session.ask s "inlayHint/resolve" hint cancellation Schema.inlayHint.read?
    else pure (.ok hint)

end Hub

end LanguageHub
