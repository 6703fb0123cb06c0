import LanguageHub.Config.Value
import LanguageHub.Duration
import LanguageHub.Registry.Definition

/-!
# Configuration

What a user may set: timeouts, languages and servers. A record is read from a table by
name or from a list by position, and what is missing has a default.
-/

namespace LanguageHub

/-- Where failures of servers are reported. -/
inductive ErrorReporting where
  | none
  | notification
  | inLog
  deriving DecidableEq, Repr, Inhabited

namespace ErrorReporting

def name : ErrorReporting → String
  | none => "none"
  | notification => "notification"
  | inLog => "in_log"

def ofName? (s : String) : Option ErrorReporting :=
  [none, notification, inLog].find? (·.name == s)

end ErrorReporting

/-- A language of a server with the paths that it is for. -/
structure LanguageBinding where
  language : String
  languageId : Option String
  patterns : List String
  deriving DecidableEq, Repr, Inhabited

structure ServerConfig where
  id : String
  label : Option String
  description : Option String
  command : Option String
  args : List String
  workingDir : Option String
  env : List (String × String)
  address : Option String
  singleton : Bool
  scope : ServerScope
  /-- In seconds; zero and less mean the default. -/
  disconnectTimeout : Int
  enabled : Bool
  initializationOptions : Option Json
  settings : Option Json
  languages : List LanguageBinding
  deriving Repr, Inhabited

structure Config where
  /-- In seconds. -/
  requestTimeout : Nat
  /-- In seconds. -/
  handshakeTimeout : Nat
  shutdownGraceMs : Nat
  errorReporting : ErrorReporting
  /-- The declared languages with their bases. -/
  languages : List (String × Option String)
  servers : List ServerConfig
  deriving Repr, Inhabited

/-! ## Reading -/

namespace ConfigValue

/-- The field of a record with this name and position. -/
def field (name : String) (position : Nat) : ConfigValue → Option ConfigValue
  | table entries => List.lookup name entries
  | list items => items[position]?
  | _ => none

/-- Whether fields can be read from a value. -/
def isRecord : ConfigValue → Bool
  | table _ => true
  | list _ => true
  | _ => false

/-- A field that has a default. -/
def fieldOr (v : ConfigValue) (name : String) (position : Nat) (default : α)
    (read : ConfigValue → Option α) : Option α :=
  match v.field name position with
  | none => some default
  | some f => read f

/-- A field that may be missing or null. -/
def fieldOption (v : ConfigValue) (name : String) (position : Nat) (read : ConfigValue → Option α) :
    Option (Option α) :=
  match v.field name position with
  | none => some none
  | some nothing => some none
  | some f => (read f).map some

def toList? (read : ConfigValue → Option α) : ConfigValue → Option (List α)
  | list items => items.mapM read
  | _ => none

def toEntries? (read : ConfigValue → Option α) : ConfigValue → Option (List (String × α))
  | table entries => entries.mapM fun (k, v) => (read v).map (k, ·)
  | _ => none

end ConfigValue

open ConfigValue

def LanguageBinding.read? (v : ConfigValue) : Option LanguageBinding := do
  if !v.isRecord then none
  let language ← (v.field "language" 0).bind toText?
  let languageId ← v.fieldOption "language_id" 1 toText?
  let patterns ← v.fieldOr "patterns" 2 [] (toList? toText?)
  pure ⟨language, languageId, patterns⟩

def ServerScope.read? (v : ConfigValue) : Option ServerScope :=
  (v.toWord? ["project", "application"]).map fun s =>
    if s = "project" then .project else .application

def ErrorReporting.read? (v : ConfigValue) : Option ErrorReporting :=
  (v.toWord? ["none", "notification", "in_log"]).bind ErrorReporting.ofName?

def ServerConfig.read? (v : ConfigValue) : Option ServerConfig := do
  if !v.isRecord then none
  let id ← (v.field "id" 0).bind toText?
  let label ← v.fieldOption "label" 1 toText?
  let description ← v.fieldOption "description" 2 toText?
  let command ← v.fieldOption "command" 3 toText?
  let args ← v.fieldOr "args" 4 [] (toList? toText?)
  let workingDir ← v.fieldOption "working_dir" 5 toText?
  let env ← v.fieldOr "env" 6 [] (toEntries? toText?)
  let address ← v.fieldOption "address" 7 toText?
  let singleton ← v.fieldOr "singleton" 8 false toBool?
  let scope ← v.fieldOr "scope" 9 .application ServerScope.read?
  let disconnectTimeout ← v.fieldOr "disconnect_timeout" 10 5 toSigned?
  let enabled ← v.fieldOr "enabled" 11 true toBool?
  let initializationOptions ← v.fieldOption "initialization_options" 12 fun v => some v.toJson
  let settings ← v.fieldOption "settings" 13 fun v => some v.toJson
  let languages ← v.fieldOr "languages" 14 [] (toList? LanguageBinding.read?)
  pure ⟨id, label, description, command, args, workingDir, env, address, singleton, scope,
    disconnectTimeout, enabled, initializationOptions, settings, languages⟩

/-- The base of a declared language. -/
def readLanguage? (v : ConfigValue) : Option (Option String) :=
  if v.isRecord then v.fieldOption "base" 0 toText? else none

namespace Config

def defaultTimeoutSeconds : Nat := 30

def defaultGraceMs : Nat := 1000

def default : Config :=
  ⟨defaultTimeoutSeconds, defaultTimeoutSeconds, defaultGraceMs, .notification, [], []⟩

def read? (v : ConfigValue) : Option Config := do
  let requestTimeout ← v.fieldOr "request_timeout" 0 defaultTimeoutSeconds toUnsigned?
  let handshakeTimeout ← v.fieldOr "handshake_timeout" 1 defaultTimeoutSeconds toUnsigned?
  let shutdownGraceMs ← v.fieldOr "shutdown_grace_ms" 2 defaultGraceMs toUnsigned?
  let errorReporting ← v.fieldOr "error_reporting" 3 .notification ErrorReporting.read?
  let languages ← v.fieldOr "language" 4 [] (toEntries? readLanguage?)
  let servers ← v.fieldOr "server" 5 [] (toList? ServerConfig.read?)
  pure ⟨requestTimeout, handshakeTimeout, shutdownGraceMs, errorReporting, languages, servers⟩

end Config

/-- The time that an idle session stays. -/
def ServerConfig.idleTime (s : ServerConfig) : Duration :=
  if 0 < s.disconnectTimeout then .ofSeconds s.disconnectTimeout.toNat
  else defaultDisconnectTimeout

/-! ## Sessions -/

/-- How every session behaves. -/
structure SessionOptions where
  requestTimeout : Duration
  handshakeTimeout : Duration
  shutdownGrace : Duration
  errorReporting : ErrorReporting
  deriving DecidableEq, Repr, Inhabited

def SessionOptions.ofConfig (c : Config) : SessionOptions :=
  ⟨.ofSeconds c.requestTimeout, .ofSeconds c.handshakeTimeout, .ofMillis c.shutdownGraceMs,
    c.errorReporting⟩

end LanguageHub
