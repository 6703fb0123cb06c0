import LanguageHub.Document.Synchronizer
import LanguageHub.Text.Split

/-!
# The mock server's command line

Options take a value after an equals sign or as the next argument, flags take none, and
only the options that collect values may come more than once.
-/

namespace LanguageHub

/-- How a mock server behaves. -/
structure MockSettings where
  name : String
  sync : SyncKind
  /-- Declares only how documents are kept in sync. -/
  syncKindOnly : Bool
  noSave : Bool
  saveIncludeText : Bool
  /-- Capabilities that are not declared. -/
  without : List String
  /-- The file that gets every message. -/
  record : Option String
  /-- In milliseconds. -/
  responseDelay : Nat
  noDiagnostics : Bool
  /-- Stops after so many responses. -/
  dropAfter : Option Nat
  /-- Methods that are never answered. -/
  hangOn : List String
  /-- Methods that always fail. -/
  failOn : List String
  exitImmediately : Bool
  sendConfigurationRequest : Bool
  deriving DecidableEq, Repr, Inhabited

namespace MockSettings

def default : MockSettings :=
  ⟨"mockls", .incremental, false, false, false, [], none, 0, false, none, [], [], false, false⟩

end MockSettings

/-- What a command line asks for. -/
inductive CommandLine where
  | run (settings : MockSettings)
  | help
  | misuse
  deriving DecidableEq, Repr

namespace CommandLine

/-- The options that take a value. -/
def takesValue (name : String) : Bool :=
  ["name", "sync", "without", "record", "response-delay", "drop-after", "hang-on",
    "fail-on"].contains name

/-- The options that may come more than once. -/
def collects (name : String) : Bool := ["without", "hang-on", "fail-on"].contains name

def syncKind? : String → Option SyncKind
  | "none" => some .nothing
  | "full" => some .full
  | "incremental" => some .incremental
  | _ => none

/-- A count of 64 bits. -/
def count? (value : String) : Option Nat :=
  (Text.natural? value.toList).filter (· < UInt64.size)

/-- The settings with an option's value; nothing when the value does not fit. -/
def setValue? (s : MockSettings) (name value : String) : Option MockSettings :=
  match name with
  | "name" => some { s with name := value }
  | "sync" => (syncKind? value).map fun k => { s with sync := k }
  | "without" => some { s with without := s.without ++ [value] }
  | "record" => if value.isEmpty then none else some { s with record := some value }
  | "response-delay" => (count? value).map fun n => { s with responseDelay := n }
  | "drop-after" => (count? value).map fun n => { s with dropAfter := some n }
  | "hang-on" => some { s with hangOn := s.hangOn ++ [value] }
  | "fail-on" => some { s with failOn := s.failOn ++ [value] }
  | _ => none

def setFlag? (s : MockSettings) (name : String) : Option MockSettings :=
  match name with
  | "sync-kind-only" => some { s with syncKindOnly := true }
  | "no-save" => some { s with noSave := true }
  | "save-include-text" => some { s with saveIncludeText := true }
  | "no-diagnostics" => some { s with noDiagnostics := true }
  | "exit-immediately" => some { s with exitImmediately := true }
  | "send-configuration-request" => some { s with sendConfigurationRequest := true }
  | _ => none

/-- What follows an option is its value unless it looks like an option itself. -/
def isValue (argument : String) : Bool :=
  match argument.toList with
  | ['-'] => true
  | '-' :: _ => false
  | _ => true

/-- Reads the arguments in order, where `seen` came before. -/
def read (s : MockSettings) (seen : List String) : List String → CommandLine
  | [] => .run s
  | argument :: rest =>
    match argument.toList with
    | ['-', '-'] => if rest.isEmpty then .run s else .misuse
    | '-' :: '-' :: long =>
      let (name, given) := match Text.splitOnce? '=' long with
        | some (name, value) => (String.ofList name, some (String.ofList value))
        | none => (String.ofList long, none)
      if name = "help" && given.isNone then .help
      else if seen.contains name && !collects name then .misuse
      else if takesValue name then
        match given, rest with
        | some value, rest =>
          match setValue? s name value with
          | some s => read s (name :: seen) rest
          | none => .misuse
        | none, value :: rest =>
          if isValue value then
            match setValue? s name value with
            | some s => read s (name :: seen) rest
            | none => .misuse
          else .misuse
        | none, [] => .misuse
      else
        match given, setFlag? s name with
        | none, some s => read s (name :: seen) rest
        | _, _ => .misuse
    | '-' :: 'h' :: _ => .help
    | _ => .misuse

def ofArguments (arguments : List String) : CommandLine := read .default [] arguments

/-- The exit status for wrong use. -/
def misuseStatus : Nat := 2

end CommandLine

end LanguageHub
