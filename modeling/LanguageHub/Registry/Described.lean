import LanguageHub.Registry.Basic

/-!
# Described registries

Definitions, associations and updates as JSON describes them. A definition with an address
is reached there, and any other one is a command.
-/

namespace LanguageHub

def ServerDefinition.ofJson (v : Json) : ServerDefinition :=
  let connection := match v.textAt? "address" with
    | some address => Connection.socket address
    | none =>
      .process (((v.get? "command").bind Json.strings?).getD []) (v.textAt? "working_dir") []
  let d := ServerDefinition.new ((v.textAt? "id").getD "") connection
  let d := { d with
    label := (v.textAt? "label").getD d.id
    singleton := (v.boolAt? "singleton").getD false
    scope := if v.textAt? "scope" = some "project" then .project else .application
    settings := v.get? "settings"
    initializationOptions := v.get? "initialization_options" }
  (v.natAt? "disconnect_timeout_ms").elim d fun ms => d.withDisconnectTimeout (.ofMillis ms)

/-- A language as the ids from it through its bases. -/
def Language.ofJson? (v : Json) : Option Language := v.strings?.bind Language.ofChain?

def DefinitionUpdate.ofJson (v : Json) : DefinitionUpdate :=
  ⟨v.get? "settings", v.get? "initialization_options", v.boolAt? "enabled"⟩

namespace Registry

/-- The language that a value means: a declared one by its id, or a chain of bases. -/
def languageIn (r : Registry) (v : Json) : Language :=
  match v.get? "language" with
  | some (.str id) => r.language id
  | some chain => (Language.ofJson? chain).getD (.plain "")
  | none => .plain ""

/-- Registers an association after its patterns were compiled. -/
def associateDescribed (r : Registry) (v : Json) : Except HubError Registry := do
  let matcher ← match (v.get? "patterns").bind Json.strings? with
    | some patterns => (DocumentMatcher.ofPatterns patterns).map some
    | none => pure none
  r.associate (r.languageIn v) ((v.textAt? "server").getD "") (v.textAt? "language_id") matcher

def addDescribed (r : Registry) (v : Json) : Except HubError Registry :=
  let d := ServerDefinition.ofJson v
  (v.boolAt? "enabled").elim (.ok (r.add d)) fun enabled => (r.add d).setEnabled d.id enabled

/-- Makes several updates one after the other. -/
def updateAll (r : Registry) (updates : List Json) : Except HubError Registry :=
  updates.foldlM (fun r u => r.update ((u.textAt? "id").getD "") (.ofJson u)) r

/-- A registry with languages, definitions and associations. -/
def described (languages definitions associations : List Json) : Except HubError Registry := do
  let r := languages.foldl
    (fun r l => r.declareLanguage ((Language.ofJson? l).getD (.plain ""))) empty
  let r ← definitions.foldlM addDescribed r
  associations.foldlM associateDescribed r

end Registry

end LanguageHub
