import LanguageHub.Event.Broadcast
import LanguageHub.Registry.Definition
import LanguageHub.Registry.Glob

/-!
# The registry

The registry knows the server definitions, in the order in which they came, and which
languages and paths each of them serves. Every change that can be seen is announced to
subscribers; a call that fails changes nothing.
-/

namespace LanguageHub

/-- A language, and maybe paths, that a definition serves. -/
structure LanguageAssociation where
  language : Language
  definitionId : String
  /-- The server's id for the language. -/
  languageId : String
  /-- Every path, without one. -/
  matcher : Option DocumentMatcher
  deriving Repr, Inhabited

def LanguageAssociation.isEligible (a : LanguageAssociation) (path : String) : Bool :=
  a.matcher.all (·.isMatch path)

def LanguageAssociation.toJson (a : LanguageAssociation) : Json :=
  .mkObj [
    ("language", .ofStrings a.language.ancestry), ("server", .str a.definitionId),
    ("language_id", .str a.languageId),
    ("matcher", .ofOption (fun (m : DocumentMatcher) => .str m.shown) a.matcher)]

/-- New values for what may change; null clears. -/
structure DefinitionUpdate where
  settings : Option Json
  initializationOptions : Option Json
  enabled : Option Bool
  deriving Repr, Inhabited

def DefinitionUpdate.ofEnabled (enabled : Bool) : DefinitionUpdate := ⟨none, none, some enabled⟩

inductive RegistryEvent where
  | added (id : String)
  | replaced (id : String)
  | removed (id : String)
  | changed (id : String) (settings initializationOptions enabled : Bool)
  deriving DecidableEq, Repr, Inhabited

def RegistryEvent.toJson : RegistryEvent → Json
  | added id => .mkObj [("added", .str id)]
  | replaced id => .mkObj [("replaced", .str id)]
  | removed id => .mkObj [("removed", .str id)]
  | changed id settings initializationOptions enabled => .mkObj [
      ("changed", .str id), ("settings", .bool settings),
      ("initialization_options", .bool initializationOptions), ("enabled", .bool enabled)]

structure Registry where
  definitions : List ServerDefinition
  /-- Definitions that were replaced or removed, which sessions may still use. -/
  retired : List ServerDefinition
  associations : List LanguageAssociation
  languages : List (String × Language)
  /-- The ids whose connections the host editor makes. -/
  factories : List String
  events : Broadcast RegistryEvent
  /-- The next definition's serial. -/
  nextSerial : Nat
  deriving Repr, Inhabited

namespace Registry

def channelCapacity : Nat := 64

def empty : Registry := ⟨[], [], [], [], [], .new channelCapacity, 1⟩

def emit (r : Registry) (e : RegistryEvent) : Registry := { r with events := r.events.send e }

/-! ## Languages -/

/-- The declared language with this id, or else a plain one. -/
def language (r : Registry) (id : String) : Language :=
  (List.lookup id r.languages).getD (.plain id)

/-- The last declaration of an id counts. -/
def declareLanguage (r : Registry) (l : Language) : Registry :=
  { r with languages := (l.id, l) :: r.languages.filter (·.1 != l.id) }

/-! ## Definitions -/

def find? (r : Registry) (id : String) : Option ServerDefinition :=
  r.definitions.find? (·.id == id)

/-- The definition with this serial, even when it is no longer registered. -/
def object? (r : Registry) (serial : Nat) : Option ServerDefinition :=
  (r.definitions ++ r.retired).find? (·.serial == serial)

/-- The definitions with one of them changed. -/
def modify (r : Registry) (id : String) (f : ServerDefinition → ServerDefinition) : Registry :=
  { r with definitions := r.definitions.map fun d => if d.id == id then f d else d }

def associationsFor (r : Registry) (id : String) : List LanguageAssociation :=
  r.associations.filter (·.definitionId == id)

/-- The definition with the language ids of the associations that it takes over. -/
def adopt (r : Registry) (d : ServerDefinition) : ServerDefinition :=
  (r.associationsFor d.id).foldl (fun d a => d.recordLanguageId a.language a.languageId) d

/-- Registers a definition. One with the same id gives its place and associations to it. -/
def add (r : Registry) (d : ServerDefinition) : Registry :=
  let d := r.adopt { d with serial := r.nextSerial }
  let r := { r with nextSerial := r.nextSerial + 1 }
  match r.find? d.id with
  | some old =>
    ({ r.modify d.id fun _ => d with retired := old :: r.retired }).emit (.replaced d.id)
  | none => { r with definitions := r.definitions ++ [d] }.emit (.added d.id)

/-- Takes out a definition, its associations and its factory. -/
def remove (r : Registry) (id : String) : Except HubError Registry :=
  match r.find? id with
  | none => .error (.definitionNotFound id)
  | some old =>
    .ok ({ r with
      definitions := r.definitions.filter (·.id != id)
      retired := old :: r.retired
      associations := r.associations.filter (·.definitionId != id)
      factories := r.factories.filter (· != id) }.emit (.removed id))

/-- Lets a definition serve a language, under the language's own id unless another is given. -/
def associate (r : Registry) (language : Language) (id : String) (languageId : Option String)
    (matcher : Option DocumentMatcher) : Except HubError Registry :=
  match r.find? id with
  | none => .error (.definitionNotFound id)
  | some _ =>
    let languageId := languageId.getD language.id
    let r := r.modify id (·.recordLanguageId language languageId)
    .ok { r with associations := r.associations ++ [⟨language, id, languageId, matcher⟩] }

/-! ## Updates -/

/-- A new value where null clears. -/
def cleared (value : Json) : Option Json := if value.isNull then none else some value

/-- Whether a new value differs from the old one. -/
def differs (old : Option Json) (value : Json) : Bool :=
  match old, cleared value with
  | none, none => false
  | some a, some b => !a.same b
  | _, _ => true

/-- The value after an update, and whether that changed it. -/
def replaceValue (old : Option Json) (update : Option Json) : Option Json × Bool :=
  match update with
  | none => (old, false)
  | some value => if differs old value then (cleared value, true) else (old, false)

def update (r : Registry) (id : String) (u : DefinitionUpdate) : Except HubError Registry :=
  match r.find? id with
  | none => .error (.definitionNotFound id)
  | some d =>
    let (settings, settingsChanged) := replaceValue d.settings u.settings
    let (options, optionsChanged) := replaceValue d.initializationOptions u.initializationOptions
    let enabled := u.enabled.getD d.enabled
    let enabledChanged := enabled != d.enabled
    let r := r.modify id fun d =>
      { d with settings, initializationOptions := options, enabled }
    .ok (if settingsChanged || optionsChanged || enabledChanged then
      r.emit (.changed id settingsChanged optionsChanged enabledChanged) else r)

def setEnabled (r : Registry) (id : String) (enabled : Bool) : Except HubError Registry :=
  r.update id (.ofEnabled enabled)

/-! ## Connections -/

def registerFactory (r : Registry) (id : String) : Registry :=
  { r with factories := id :: r.factories.filter (· != id) }

/-- How a definition's server is reached: by the host editor, when it offered to. -/
def connectionFor (r : Registry) (d : ServerDefinition) : Connection :=
  if r.factories.contains d.id then .factory else d.connection

/-! ## Matching -/

/-- The ids of eligible associations, each where it comes first. -/
def eligibleIds (r : Registry) (language : Language) (path : String) : List String :=
  ((r.associations.filter fun a => language.isKindOf a.language && a.isEligible path).map
    (·.definitionId)).eraseDups

/-- The enabled definitions that serve a document. -/
def definitionsFor (r : Registry) (language : Language) (path : String) : List ServerDefinition :=
  ((r.eligibleIds language path).filterMap r.find?).filter (·.enabled)

end Registry

end LanguageHub
