import LanguageHub.Config.Basic
import LanguageHub.Registry.Basic

/-!
# The configured registry

Every declared language gets the bases that the configuration gives it. A language that is
reached again while its bases are followed has none there, so every chain ends.
-/

namespace LanguageHub

namespace Language

/-- The declarations of other languages. -/
def without (declared : List (String × Option String)) (id : String) :
    List (String × Option String) :=
  declared.filter fun e => e.1 != id

theorem length_without_lt {id : String} {v : Option String} {es : List (String × Option String)}
    (h : List.lookup id es = some v) : (without es id).length < es.length := by
  obtain ⟨_, _, rfl, _⟩ := List.lookup_eq_some_iff.1 h
  exact List.length_filter_lt_length_iff_exists.2 ⟨(id, v), by simp, by simp⟩

/-- The ids from a language through its declared bases. Each declaration serves once. -/
def ancestryIn (declared : List (String × Option String)) (id : String) : List String :=
  match _h : List.lookup id declared with
  | some (some base) => id :: ancestryIn (without declared id) base
  | _ => [id]
termination_by declared.length
decreasing_by exact length_without_lt ‹_›

/-- The declared language with this id. -/
def configured (declared : List (String × Option String)) (id : String) : Language :=
  (ofChain? (ancestryIn declared id)).getD (plain id)

end Language

def ServerDefinition.ofConfig (s : ServerConfig) : ServerDefinition :=
  let connection := match s.address with
    | some address => Connection.socket address
    | none => .process (s.command.toList ++ s.args) s.workingDir s.env
  { (ServerDefinition.new s.id connection).withDisconnectTimeout s.idleTime with
    label := s.label.getD s.id
    description := s.description
    singleton := s.singleton
    scope := s.scope
    enabled := s.enabled
    initializationOptions := s.initializationOptions
    settings := s.settings }

namespace Registry

/-- Registers a server's language; without patterns it is for every path. -/
def bind (r : Registry) (server : String) (b : LanguageBinding) : Except HubError Registry := do
  let matcher ←
    if b.patterns.isEmpty then pure none
    else (DocumentMatcher.ofPatterns b.patterns).map some
  r.associate (r.language b.language) server b.languageId matcher

def addConfigured (r : Registry) (s : ServerConfig) : Except HubError Registry :=
  s.languages.foldlM (fun r b => r.bind s.id b) (r.add (.ofConfig s))

def ofConfig (c : Config) : Except HubError Registry :=
  let declared := c.languages.foldl
    (fun r (id, _) => r.declareLanguage (Language.configured c.languages id)) empty
  c.servers.foldlM addConfigured declared

end Registry

end LanguageHub
