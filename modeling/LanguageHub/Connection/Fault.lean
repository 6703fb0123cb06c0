import LanguageHub.Registry.Definition
import LanguageHub.Text.Split

/-!
# Connections that cannot be tried

A command needs a program, and an address a host and a port. Without them nothing is run
or dialled.
-/

namespace LanguageHub

namespace Address

/-- The host and the port, which stands after the last colon. -/
def split? (address : String) : Option (List Char × List Char) :=
  (Text.splitOnce? ':' address.toList.reverse).map fun (port, host) => (host.reverse, port.reverse)

/-- A port is a number of 16 bits, which may have a plus sign. -/
def isPort (text : List Char) : Bool :=
  (Text.natural? text).any (· < UInt16.size)

/-- Why the text is no address. -/
def fault? (address : String) : Option String :=
  match split? address with
  | none => some "invalid socket address"
  | some (_, port) => if isPort port then none else some "invalid port value"

end Address

namespace Connection

/-- Why a command cannot be run. -/
def commandFault? : List String → Option String
  | [] => some "no command configured"
  | program :: _ =>
    if (Text.trim program.toList).isEmpty then some "empty command" else none

/-- Why an address could not be reached. -/
def dialFailure (address reason : String) : String := s!"failed to connect to {address}: {reason}"

/-- Why a program could not be run. -/
def spawnFailure (program reason : String) : String := s!"failed to spawn {program}: {reason}"

/-- How a system names a program or directory that is not there. -/
def missing : String := "No such file or directory (os error 2)"

/-- How a system names an address at which nobody listens. -/
def refused : String := "Connection refused (os error 111)"

end Connection

end LanguageHub
