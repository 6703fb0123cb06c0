import LanguageHub.Config.Basic

/-!
# Reports of configurations

A configuration as it was understood, with everything that it leaves out filled in.
-/

namespace LanguageHub

def LanguageBinding.toJson (b : LanguageBinding) : Json :=
  .mkObj [
    ("language", .str b.language), ("language_id", .ofOption .str b.languageId),
    ("patterns", .ofStrings b.patterns)]

def ServerConfig.toJson (s : ServerConfig) : Json :=
  .mkObj [
    ("id", .str s.id), ("label", .ofOption .str s.label),
    ("description", .ofOption .str s.description), ("command", .ofOption .str s.command),
    ("args", .ofStrings s.args), ("working_dir", .ofOption .str s.workingDir),
    ("env", .mkObj (s.env.map fun (name, value) => (name, .str value))),
    ("address", .ofOption .str s.address), ("singleton", .bool s.singleton),
    ("scope", .str s.scope.name), ("disconnect_timeout", .ofInt s.disconnectTimeout),
    ("enabled", .bool s.enabled),
    ("initialization_options", s.initializationOptions.getD .null),
    ("settings", s.settings.getD .null),
    ("languages", .arr (s.languages.map (·.toJson))),
    ("effective_disconnect_ms", .ofNat s.idleTime.cappedMillis)]

def Config.toJson (c : Config) : Json :=
  let o := SessionOptions.ofConfig c
  let spans := [o.requestTimeout, o.handshakeTimeout, o.shutdownGrace]
  .mkObj [
    ("request_timeout", .ofNat c.requestTimeout),
    ("handshake_timeout", .ofNat c.handshakeTimeout),
    ("shutdown_grace_ms", .ofNat c.shutdownGraceMs),
    ("error_reporting", .str c.errorReporting.name),
    ("language", .mkObj (c.languages.map fun (id, base) => (id, .ofOption .str base))),
    ("server", .arr (c.servers.map (·.toJson))),
    ("options_ms", .arr (spans.map fun d => .ofNat d.cappedMillis)),
    ("options_reporting", .str o.errorReporting.name)]

end LanguageHub
