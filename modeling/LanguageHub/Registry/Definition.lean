import LanguageHub.Duration
import LanguageHub.Json.Basic
import LanguageHub.Registry.Language

/-!
# Server definitions

A definition says how to reach a language server and how its sessions behave. Its
enabled flag, settings and initialization options may change while sessions run.
-/

namespace LanguageHub

/-- Whether a server serves each project apart or all of them at once. -/
inductive ServerScope where
  | project
  | application
  deriving DecidableEq, Repr, Inhabited

def ServerScope.name : ServerScope → String
  | project => "project"
  | application => "application"

/-- How messages show a scope. -/
def ServerScope.shown : ServerScope → String
  | project => "Project"
  | application => "Application"

/-- How a server is reached. -/
inductive Connection where
  | process (command : List String) (workingDir : Option String) (env : List (String × String))
  | socket (address : String)
  /-- Made by the host editor. -/
  | factory
  deriving DecidableEq, Repr, Inhabited

def Connection.shown : Connection → String
  | process command workingDir _ =>
    s!"Process \x7b command: {Text.quotedList command}, " ++
      s!"working_dir: {Text.quotedPathOption workingDir}, .. \x7d"
  | socket address => s!"Socket \x7b address: {Text.quoted address} \x7d"
  | factory => "Factory"

def Connection.toJson : Connection → Json
  | process command workingDir env => .mkObj [
      ("process", .ofStrings command), ("working_dir", .ofOption .str workingDir),
      ("env", .mkObj (env.map fun (name, value) => (name, .str value)))]
  | socket address => .mkObj [("socket", .str address)]
  | factory => .str "factory"

/-- How long a session without documents stays when nothing else is said. -/
def defaultDisconnectTimeout : Duration := .ofSeconds 5

structure ServerDefinition where
  id : String
  label : String
  description : Option String
  singleton : Bool
  scope : ServerScope
  disconnectTimeout : Duration
  connection : Connection
  enabled : Bool
  initializationOptions : Option Json
  settings : Option Json
  /-- The id that this server has for a language, by the language's own id. -/
  languageIds : List (String × String)
  /-- Tells this definition from others with its id. -/
  serial : Nat
  deriving Repr, Inhabited

namespace ServerDefinition

def new (id : String) (connection : Connection) : ServerDefinition where
  id
  label := id
  description := none
  singleton := false
  scope := .application
  disconnectTimeout := defaultDisconnectTimeout
  connection
  enabled := true
  initializationOptions := none
  settings := none
  languageIds := []
  serial := 0

/-- No time at all means the default time. -/
def withDisconnectTimeout (d : ServerDefinition) (timeout : Duration) : ServerDefinition :=
  { d with disconnectTimeout := if timeout.isZero then defaultDisconnectTimeout else timeout }

/-- The server's id for a language: that of the nearest language in its ancestry that has
one, or else the language's own. -/
def languageIdFor (d : ServerDefinition) (language : Language) : String :=
  (language.ancestry.findSome? fun id => List.lookup id d.languageIds).getD language.id

/-- The first id that is recorded for a language stays. -/
def recordLanguageId (d : ServerDefinition) (language : Language) (languageId : String) :
    ServerDefinition :=
  match List.lookup language.id d.languageIds with
  | some _ => d
  | none => { d with languageIds := d.languageIds ++ [(language.id, languageId)] }

def shown (d : ServerDefinition) : String :=
  s!"ServerDefinition \x7b id: {Text.quoted d.id}, singleton: {d.singleton}, " ++
    s!"scope: {d.scope.shown}, enabled: {d.enabled}, connection: {d.connection.shown}, .. \x7d"

def toJson (d : ServerDefinition) : Json :=
  .mkObj [
    ("id", .str d.id), ("label", .str d.label), ("description", .ofOption .str d.description),
    ("singleton", .bool d.singleton), ("scope", .str d.scope.name),
    ("disconnect_timeout_ms", .ofNat d.disconnectTimeout.cappedMillis),
    ("connection", d.connection.toJson), ("enabled", .bool d.enabled),
    ("settings", d.settings.getD .null),
    ("initialization_options", d.initializationOptions.getD .null)]

end ServerDefinition

end LanguageHub
