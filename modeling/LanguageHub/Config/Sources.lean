import LanguageHub.Config.Basic
import LanguageHub.Config.Toml
import LanguageHub.Json.Reader

/-!
# Sources of the configuration

The configuration is put together from the user's own file, a file named explicitly and
the environment, each laid over the ones before it.
-/

namespace LanguageHub

/-- Why there is no configuration. -/
inductive ConfigFault where
  /-- A source is missing or cannot be read. -/
  | source
  /-- The values do not fit. -/
  | values
  deriving DecidableEq, Repr

def ConfigFault.message : ConfigFault → String
  | source => "Failed to build configuration"
  | values => "Failed to deserialize configuration"

inductive ConfigFormat where
  | toml
  | json
  deriving DecidableEq, Repr

namespace ConfigFormat

/-- The entries that a text of this format holds. -/
def read? : ConfigFormat → String → Option (List (String × ConfigValue))
  | toml, text => Toml.read? text
  | json, text =>
    match (Json.read? text).map ConfigValue.ofJson with
    | some (.table entries) => some entries
    | _ => none

/-- The format that a file's extension names. A dot that begins the name begins no
extension. -/
def ofFileName? (name : String) : Option ConfigFormat :=
  match Text.splitOnce? '.' name.toList.reverse with
  | some (ext, _ :: _) =>
    if ext.reverse = "toml".toList then some toml
    else if ext.reverse = "json".toList then some json
    else none
  | _ => none

end ConfigFormat

/-- What the configuration is put together from. -/
structure ConfigSources where
  /-- The text of the user's own file. -/
  user : Option String
  /-- The name of a file that must be there, and its text when it is. -/
  explicit : Option (String × Option String)
  environment : List (String × String)
  deriving Repr, Inhabited

namespace ConfigSources

/-- Variables with this prefix set what the rest of their name says. -/
def environmentPrefix : String := "switchyard_"

/-- The entries that variables give; names are compared in small letters. -/
def environmentEntries (environment : List (String × String)) : List (String × ConfigValue) :=
  environment.filterMap fun (name, value) =>
    let name := Text.lowered name.toList
    let start := environmentPrefix.toList
    if start.isPrefixOf name then
      some (String.ofList (name.drop start.length), .text value)
    else none

def orFault (fault : ConfigFault) : Option α → Except ConfigFault α
  | some a => .ok a
  | none => .error fault

def explicitEntries : Option (String × Option String) →
    Except ConfigFault (List (String × ConfigValue))
  | none => .ok []
  | some (name, text) => orFault .source do
    let text ← text
    let format ← ConfigFormat.ofFileName? name
    format.read? text

/-- The values before any source. -/
def defaults : List (String × ConfigValue) := [
  ("request_timeout", .int Config.defaultTimeoutSeconds),
  ("handshake_timeout", .int Config.defaultTimeoutSeconds),
  ("shutdown_grace_ms", .int Config.defaultGraceMs)]

def load (s : ConfigSources) : Except ConfigFault Config := do
  let user ← match s.user with
    | none => pure []
    | some text => orFault .source (ConfigFormat.toml.read? text)
  let explicit ← explicitEntries s.explicit
  let merged := [user, explicit, environmentEntries s.environment].foldl
    ConfigValue.withSource (.table defaults)
  orFault .values (Config.read? merged)

end ConfigSources

/-- The configuration that one document gives. -/
def Config.ofToml (text : String) : Except ConfigFault Config := do
  let entries ← ConfigSources.orFault .source (Toml.read? text)
  ConfigSources.orFault .values (Config.read? (ConfigValue.withSource (.table []) entries))

end LanguageHub
