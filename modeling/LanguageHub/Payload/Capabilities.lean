import LanguageHub.Payload.Basic

/-!
# What servers and clients can do

A server declares its capabilities when it is initialized. A feature is supported when
its member is there and is not `false`. The way documents are kept in sync is read off
the capabilities as well; without any word on it whole texts and saves are sent.
-/

namespace LanguageHub

namespace Schema

/-- Every provider may say that it reports progress. -/
def progress : String × Presence × Schema := optional "workDoneProgress" .bool

def documentSelector : String × Presence × Schema :=
  ("documentSelector", .nullable, .list (.record [
    optional "language" .string, optional "scheme" .string, optional "pattern" .string]))

def registrationId : String × Presence × Schema := optional "id" .string

/-- Options of a provider that has members of its own beside progress. -/
def options (fields : Fields) : Schema := .object (fields ++ [progress])

/-- A provider that is on, off or has options. -/
def provider (choices : List Schema) : Schema := .oneOf (.bool :: choices)

def staticRegistration : Schema := .record [documentSelector, registrationId]

def syncOptions : Schema := .record [
  optional "openClose" .bool,
  optional "change" int32,
  optional "willSave" .bool,
  optional "willSaveWaitUntil" .bool,
  optional "save" (.oneOf [.bool, .record [optional "includeText" .bool]])]

def fileOperations : Schema := .record [
  required "filters" (.list (.record [
    optional "scheme" .string,
    required "pattern" (.record [
      required "glob" .string,
      optional "matches" (.word ["file", "folder"]),
      optional "options" (.record [optional "ignoreCase" .bool])])]))]

def workspaceCapabilities : Schema := .record [
  optional "workspaceFolders" (.record [
    optional "supported" .bool,
    optional "changeNotifications" (.oneOf [.bool, .string])]),
  optional "fileOperations" (.record [
    optional "didCreate" fileOperations,
    optional "willCreate" fileOperations,
    optional "didRename" fileOperations,
    optional "willRename" fileOperations,
    optional "didDelete" fileOperations,
    optional "willDelete" fileOperations])]

def semanticTokenFields : Fields := [
  required "legend" (.record [
    required "tokenTypes" (.list .string), required "tokenModifiers" (.list .string)]),
  optional "range" .bool,
  optional "full" (.oneOf [.bool, .record [optional "delta" .bool]])]

def diagnosticFields : Fields := [
  optional "identifier" .string,
  required "interFileDependencies" .bool,
  required "workspaceDiagnostics" .bool]

def inlayHintFields : Fields := [optional "resolveProvider" .bool]

def serverCapabilities : Schema := .record [
  optional "positionEncoding" .string,
  optional "textDocumentSync" (.oneOf [int32, syncOptions]),
  optional "selectionRangeProvider" (provider [
    options [],
    options [documentSelector, registrationId]]),
  optional "hoverProvider" (provider [options []]),
  optional "completionProvider" (options [
    optional "resolveProvider" .bool,
    optional "triggerCharacters" (.list .string),
    optional "allCommitCharacters" (.list .string),
    optional "completionItem" (.record [optional "labelDetailsSupport" .bool])]),
  optional "signatureHelpProvider" (options [
    optional "triggerCharacters" (.list .string),
    optional "retriggerCharacters" (.list .string)]),
  optional "definitionProvider" (provider [options []]),
  optional "typeDefinitionProvider" (provider [staticRegistration]),
  optional "implementationProvider" (provider [staticRegistration]),
  optional "referencesProvider" (provider [options []]),
  optional "documentHighlightProvider" (provider [options []]),
  optional "documentSymbolProvider" (provider [options [optional "label" .string]]),
  optional "workspaceSymbolProvider" (provider [options [optional "resolveProvider" .bool]]),
  optional "codeActionProvider" (provider [options [
    optional "codeActionKinds" (.list .string), optional "resolveProvider" .bool]]),
  optional "codeLensProvider" (.record [optional "resolveProvider" .bool]),
  optional "documentFormattingProvider" (provider [options []]),
  optional "documentRangeFormattingProvider" (provider [options []]),
  optional "documentOnTypeFormattingProvider" (.record [
    required "firstTriggerCharacter" .string,
    optional "moreTriggerCharacter" (.list .string)]),
  optional "renameProvider" (provider [options [optional "prepareProvider" .bool]]),
  optional "documentLinkProvider" (options [optional "resolveProvider" .bool]),
  optional "colorProvider" (provider [.record [], staticRegistration]),
  optional "foldingRangeProvider" (provider [.record [], staticRegistration]),
  optional "declarationProvider"
    (provider [options [documentSelector, registrationId], options []]),
  optional "executeCommandProvider" (options [required "commands" (.list .string)]),
  optional "workspace" workspaceCapabilities,
  optional "callHierarchyProvider" (provider [options []]),
  optional "semanticTokensProvider" (.oneOf [
    options semanticTokenFields,
    options (semanticTokenFields ++ [documentSelector, registrationId])]),
  optional "monikerProvider" (provider [options [], options [documentSelector]]),
  optional "linkedEditingRangeProvider"
    (provider [options [], options [documentSelector, registrationId]]),
  optional "inlineValueProvider"
    (provider [options [], options [documentSelector, registrationId]]),
  optional "inlayHintProvider" (provider [
    options inlayHintFields,
    options (inlayHintFields ++ [documentSelector, registrationId])]),
  optional "diagnosticProvider" (.oneOf [
    options diagnosticFields,
    options (diagnosticFields ++ [documentSelector, registrationId])]),
  optional "experimental" .any]

def initializeResult : Schema := .record [
  required "capabilities" serverCapabilities,
  optional "serverInfo" (.record [required "name" .string, optional "version" .string])]

end Schema

/-! ## Servers -/

/-- What a server declares; the members have the form of their schema. -/
structure ServerCapabilities where
  declared : Json
  deriving Repr, Inhabited

namespace ServerCapabilities

/-- A server that declares nothing. -/
def none : ServerCapabilities := ⟨.obj []⟩

def ofJson? (v : Json) : Option ServerCapabilities := (Schema.serverCapabilities.read? v).map .mk

/-- The capabilities in the answer to the opening handshake. -/
def ofInitializeResult? (v : Json) : Option ServerCapabilities := do
  let v ← Schema.initializeResult.read? v
  let declared ← v.get? "capabilities"
  pure ⟨declared⟩

/-- The feature's member is there and is not `false`. -/
def offers (c : ServerCapabilities) (member : String) : Bool :=
  match c.declared.get? member with
  | some (.bool b) => b
  | some _ => true
  | Option.none => false

def supportsHover (c : ServerCapabilities) : Bool := c.offers "hoverProvider"

def supportsCompletion (c : ServerCapabilities) : Bool := c.offers "completionProvider"

def supportsSignatureHelp (c : ServerCapabilities) : Bool := c.offers "signatureHelpProvider"

def supportsDeclaration (c : ServerCapabilities) : Bool := c.offers "declarationProvider"

def supportsDefinition (c : ServerCapabilities) : Bool := c.offers "definitionProvider"

def supportsTypeDefinition (c : ServerCapabilities) : Bool := c.offers "typeDefinitionProvider"

def supportsImplementation (c : ServerCapabilities) : Bool := c.offers "implementationProvider"

def supportsReferences (c : ServerCapabilities) : Bool := c.offers "referencesProvider"

def supportsDocumentHighlight (c : ServerCapabilities) : Bool :=
  c.offers "documentHighlightProvider"

def supportsDocumentLink (c : ServerCapabilities) : Bool := c.offers "documentLinkProvider"

def supportsFormatting (c : ServerCapabilities) : Bool := c.offers "documentFormattingProvider"

def supportsRangeFormatting (c : ServerCapabilities) : Bool :=
  c.offers "documentRangeFormattingProvider"

def supportsCodeLens (c : ServerCapabilities) : Bool := c.offers "codeLensProvider"

def supportsFoldingRange (c : ServerCapabilities) : Bool := c.offers "foldingRangeProvider"

def supportsInlayHint (c : ServerCapabilities) : Bool := c.offers "inlayHintProvider"

/-- Hints can be completed later. -/
def supportsInlayHintResolve (c : ServerCapabilities) : Bool :=
  match (c.declared.get? "inlayHintProvider").bind (·.get? "resolveProvider") with
  | some (.bool b) => b
  | _ => false

/-- Any request for the places where a symbol is used. -/
def supportsAnyUsage (c : ServerCapabilities) : Bool :=
  c.supportsDeclaration || c.supportsDefinition || c.supportsTypeDefinition ||
    c.supportsReferences || c.supportsImplementation

/-- Everything that can be supported, and whether it is. -/
def supported (c : ServerCapabilities) : List (String × Bool) := [
  ("hover", c.supportsHover),
  ("completion", c.supportsCompletion),
  ("signature_help", c.supportsSignatureHelp),
  ("declaration", c.supportsDeclaration),
  ("definition", c.supportsDefinition),
  ("type_definition", c.supportsTypeDefinition),
  ("implementation", c.supportsImplementation),
  ("references", c.supportsReferences),
  ("document_highlight", c.supportsDocumentHighlight),
  ("document_link", c.supportsDocumentLink),
  ("formatting", c.supportsFormatting),
  ("range_formatting", c.supportsRangeFormatting),
  ("code_lens", c.supportsCodeLens),
  ("folding_range", c.supportsFoldingRange),
  ("inlay_hint", c.supportsInlayHint),
  ("inlay_hint_resolve", c.supportsInlayHintResolve),
  ("any_usage", c.supportsAnyUsage)]

end ServerCapabilities

/-! ## Synchronization -/

/-- How much of a changed document the server wants; numbers beyond the known three may occur. -/
structure SyncKind where
  code : Int
  deriving DecidableEq, Repr, Inhabited

namespace SyncKind

def nothing : SyncKind := ⟨0⟩

/-- The whole text after each change. -/
def full : SyncKind := ⟨1⟩

/-- Only what changed. -/
def incremental : SyncKind := ⟨2⟩

end SyncKind

structure SyncSettings where
  kind : SyncKind
  /-- Whether saves are sent, and if so whether with the text. -/
  saveText : Option Bool
  deriving DecidableEq, Repr, Inhabited

namespace SyncSettings

def default : SyncSettings := ⟨.full, some true⟩

def ofCapabilities (c : ServerCapabilities) : SyncSettings :=
  match c.declared.get? "textDocumentSync" with
  | none => default
  | some (.num (.int kind)) => { default with kind := ⟨kind⟩ }
  | some sync =>
    { kind := match (sync.get? "change").bind Json.int? with
        | some kind => ⟨kind⟩
        | none => .full
      saveText := match sync.get? "save" with
        | none | some (.bool false) => none
        | some (.bool true) => some true
        | some save => some (((save.get? "includeText").bind Json.bool?).getD true) }

end SyncSettings

/-! ## The client -/

/-- What this client declares to every server. -/
def clientCapabilities : Json :=
  let off := ("dynamicRegistration", Json.bool false)
  let goto : Json := .mkObj [off, ("linkSupport", .bool true)]
  .mkObj [
    ("workspace", .mkObj [
      ("configuration", .bool true),
      ("workspaceFolders", .bool true),
      ("didChangeConfiguration", .mkObj [off])]),
    ("textDocument", .mkObj [
      ("synchronization", .mkObj [
        off, ("willSave", .bool false), ("willSaveWaitUntil", .bool false),
        ("didSave", .bool true)]),
      ("hover", .mkObj [off, ("contentFormat", .ofStrings ["markdown", "plaintext"])]),
      ("completion", .obj []),
      ("signatureHelp", .obj []),
      ("declaration", goto),
      ("definition", goto),
      ("typeDefinition", goto),
      ("implementation", goto),
      ("references", .obj []),
      ("documentHighlight", .obj []),
      ("documentLink", .mkObj [off, ("tooltipSupport", .bool true)]),
      ("formatting", .obj []),
      ("rangeFormatting", .obj []),
      ("codeLens", .obj []),
      ("foldingRange", .obj []),
      ("publishDiagnostics", .obj []),
      ("inlayHint", .mkObj [off, ("resolveSupport", .mkObj [
        ("properties", .ofStrings
          ["tooltip", "textEdits", "label.tooltip", "label.location", "label.command"])])])]),
    ("window", .mkObj [("workDoneProgress", .bool true)]),
    ("general", .mkObj [("positionEncodings", .ofStrings ["utf-16"])])]

end LanguageHub
