import LanguageHub.Payload.Answers
import LanguageHub.Payload.Capabilities

/-!
# Features

What can be asked about a document: the request that each feature sends, the servers that
can be asked, and the items in their answers.
-/

namespace LanguageHub

/-- How a usage of a symbol relates to it. -/
inductive UsageKind where
  | declaration
  | definition
  | typeDefinition
  | reference
  | implementation
  deriving DecidableEq, Repr, Inhabited

namespace UsageKind

/-- The kinds in the order in which usages are listed. -/
def all : List UsageKind := [declaration, definition, typeDefinition, reference, implementation]

def name : UsageKind → String
  | declaration => "declaration"
  | definition => "definition"
  | typeDefinition => "type_definition"
  | reference => "reference"
  | implementation => "implementation"

def method : UsageKind → String
  | declaration => "textDocument/declaration"
  | definition => "textDocument/definition"
  | typeDefinition => "textDocument/typeDefinition"
  | reference => "textDocument/references"
  | implementation => "textDocument/implementation"

def isSupported (c : ServerCapabilities) : UsageKind → Bool
  | declaration => c.supportsDeclaration
  | definition => c.supportsDefinition
  | typeDefinition => c.supportsTypeDefinition
  | reference => c.supportsReferences
  | implementation => c.supportsImplementation

/-- The locations in an answer. References are a plain list of them. -/
def locations? : UsageKind → Json → Option (List Location)
  | _, .null => some []
  | reference, v => v.arr?.bind (·.mapM Location.ofJson?)
  | _, v => locationsOf v

end UsageKind

/-- A place where a symbol is used, and how. -/
structure Usage where
  kind : UsageKind
  location : Location
  deriving DecidableEq, Repr, Inhabited

def Usage.toJson (u : Usage) : Json :=
  .mkObj [("kind", .str u.kind.name), ("location", u.location.toJson)]

/-- A question about a document. -/
inductive Feature where
  | hover (position : Position)
  | completion (position : Position)
  | signatureHelp (position : Position)
  | documentHighlights (position : Position)
  | usagesOf (kind : UsageKind) (position : Position)
  /-- Usages of every kind that a server supports. -/
  | usages (position : Position)
  | codeLens
  | foldingRanges
  | documentLinks
  | inlayHints (range : Range)
  deriving DecidableEq, Repr, Inhabited

/-- The feature with a name, at a position; inlay hints are for a range. -/
def Feature.ofName? (name : String) (position : Position) (range : Option Range) : Option Feature :=
  match name with
  | "hover" => some (.hover position)
  | "completion" => some (.completion position)
  | "signature_help" => some (.signatureHelp position)
  | "document_highlights" => some (.documentHighlights position)
  | "references" => some (.usagesOf .reference position)
  | "usages" => some (.usages position)
  | "code_lens" => some .codeLens
  | "folding_ranges" => some .foldingRanges
  | "document_links" => some .documentLinks
  | "inlay_hints" => range.map .inlayHints
  | name => (UsageKind.all.find? (·.name == name)).map (.usagesOf · position)

/-! ## Parameters -/

def documentParams (uri : String) : List (String × Json) :=
  [("textDocument", .mkObj [("uri", .str uri)])]

def positionParams (uri : String) (p : Position) : List (String × Json) :=
  documentParams uri ++ [("position", p.toJson)]

def UsageKind.params (uri : String) (p : Position) : UsageKind → Json
  | reference =>
    .mkObj (positionParams uri p ++ [("context", .mkObj [("includeDeclaration", .bool true)])])
  | _ => .mkObj (positionParams uri p)

namespace Feature

/-- The method that stands for the feature, in reports of failures too. -/
def method : Feature → String
  | hover _ => "textDocument/hover"
  | completion _ => "textDocument/completion"
  | signatureHelp _ => "textDocument/signatureHelp"
  | documentHighlights _ => "textDocument/documentHighlight"
  | usagesOf kind _ => kind.method
  | usages _ => "usages"
  | codeLens => "textDocument/codeLens"
  | foldingRanges => "textDocument/foldingRange"
  | documentLinks => "textDocument/documentLink"
  | inlayHints _ => "textDocument/inlayHint"

def isSupported (c : ServerCapabilities) : Feature → Bool
  | hover _ => c.supportsHover
  | completion _ => c.supportsCompletion
  | signatureHelp _ => c.supportsSignatureHelp
  | documentHighlights _ => c.supportsDocumentHighlight
  | usagesOf kind _ => kind.isSupported c
  | usages _ => c.supportsAnyUsage
  | codeLens => c.supportsCodeLens
  | foldingRanges => c.supportsFoldingRange
  | documentLinks => c.supportsDocumentLink
  | inlayHints _ => c.supportsInlayHint

def params (uri : String) : Feature → Json
  | hover p | completion p | signatureHelp p | documentHighlights p | usages p =>
    .mkObj (positionParams uri p)
  | usagesOf kind p => kind.params uri p
  | codeLens | foldingRanges | documentLinks => .mkObj (documentParams uri)
  | inlayHints r => .mkObj (documentParams uri ++ [("range", r.toJson)])

/-! ## Answers -/

/-- The one item of an answer, or none when it is null. -/
def single? (s : Schema) (v : Json) : Option (List Json) := (s.readOption? v).map (·.toList)

/-- The items of an answer that is a list of them or null. -/
def listed? (s : Schema) : Json → Option (List Json)
  | .null => some []
  | v => ((Schema.list s).read? v).bind Json.arr?

/-- The items in a server's answer, when it has the feature's shape. -/
def items? (serverId : String) : Feature → Json → Option (List Json)
  | hover _, v => single? Schema.hover v
  | completion _, .null => some []
  | completion _, v => completionItemsOf v
  | signatureHelp _, v => single? Schema.signatureHelp v
  | documentHighlights _, v => listed? Schema.documentHighlight v
  | usagesOf kind _, v => (kind.locations? v).map (·.map Location.toJson)
  | usages _, _ => some []
  | codeLens, v => listed? Schema.codeLens v
  | foldingRanges, v => listed? Schema.foldingRange v
  | documentLinks, v => listed? Schema.documentLink v
  | inlayHints _, v => (listed? Schema.inlayHint v).map
      (·.map fun hint => .mkObj [("server", .str serverId), ("hint", hint)])

end Feature

end LanguageHub
