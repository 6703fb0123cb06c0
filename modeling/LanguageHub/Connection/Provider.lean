import LanguageHub.Connection.Fault
import LanguageHub.Connection.Program
import LanguageHub.Error

/-!
# Providers of connections

A provider gets the streams of one connection: streams that were handed to it, those of a
program that it runs, or those of an address that it dials. It gives them out once, can
tell whether the other side lives, and takes everything down when it is stopped.
-/

namespace LanguageHub

/-- The system on which a provider works. -/
structure ProviderHost where
  programs : List String
  directories : List String
  /-- The addresses at which someone listens. -/
  listeners : List String
  deriving Repr, Inhabited

inductive ProviderKind where
  /-- Streams that are there from the start. -/
  | handed
  | program (command : List String) (workingDir : Option String) (env : List (String × String))
  | dialled (address : String)
  deriving Repr, Inhabited

structure Provider where
  serverId : String
  kind : ProviderKind
  /-- The streams are there and were not given out. -/
  hasStreams : Bool
  isOpen : Bool
  child : Option RunningProgram
  /-- Time has passed since the child was started, so that its end would show. -/
  hasSettled : Bool
  deriving Repr, Inhabited

namespace Provider

/-- The other side: a program that is run, or someone who sends back what comes. -/
def otherSide : ProviderKind → RunningProgram
  | .program command workingDir env => .start (Shell.actions ⟨workingDir.getD "/", env⟩ command)
  | .handed | .dialled _ => .start [.copy]

def new (serverId : String) (kind : ProviderKind) : Provider where
  serverId
  kind
  hasStreams := kind matches .handed
  isOpen := false
  child := if kind matches .handed then some (otherSide kind) else none
  hasSettled := false

/-- Streams that were handed over are nobody's server. -/
def failure (p : Provider) (reason : String) : HubError :=
  match p.kind with
  | .handed => .processStart "in-memory" reason
  | _ => .processStart p.serverId reason

/-! ## Starting -/

/-- Why a program cannot be run in a directory. -/
def spawnFault? (host : ProviderHost) (command : List String) (workingDir : Option String) :
    Option String :=
  (Connection.commandFault? command).or
    (let program := command.headD ""
    if host.programs.contains program && workingDir.all host.directories.contains then none
    else some (Connection.spawnFailure program Connection.missing))

/-- Why an address cannot be reached. -/
def dialFault? (host : ProviderHost) (address : String) : Option String :=
  if host.listeners.contains address then none
  else some (Connection.dialFailure address ((Address.fault? address).getD Connection.refused))

def startFault? (host : ProviderHost) (p : Provider) : Option String :=
  match p.kind with
  | .handed => if p.hasStreams then none else some "streams already consumed"
  | .program command workingDir _ => spawnFault? host command workingDir
  | .dialled address => dialFault? host address

def start (host : ProviderHost) (p : Provider) : Except HubError Unit × Provider :=
  match p.startFault? host with
  | some reason => (.error (p.failure reason), p)
  | none =>
    (.ok (), { p with
      hasStreams := true, isOpen := true, child := some (otherSide p.kind), hasSettled := false })

/-! ## Asking -/

/-- The child's end would show by now. -/
def hasEnded (p : Provider) : Bool := p.hasSettled && p.child.any (!·.isRunning)

def isAlive (p : Provider) : Bool :=
  match p.kind with
  | .program .. => p.child.isSome && !p.hasEnded
  | _ => p.isOpen

def hasProcess (p : Provider) : Bool :=
  match p.kind with
  | .program .. => p.isAlive
  | _ => false

/-- Why the other side is not there. -/
def absence (p : Provider) : String :=
  match p.kind, p.child with
  | .handed, _ => "connection is not open"
  | .program .., some child => s!"process exited immediately (exit status: {child.status})"
  | .program .., none => "process is not running"
  | .dialled address, _ => s!"not connected to {address}"

/-- Waits a moment and makes sure that the other side is there. -/
def ensureAlive (p : Provider) : Except HubError Unit × Provider :=
  let p := { p with hasSettled := true }
  (if p.isAlive then .ok () else .error (p.failure p.absence), p)

/-! ## Streams -/

/-- Gives out the streams; whether the errors of the other side can be read too. -/
def takeStreams (p : Provider) : Option Bool × Provider :=
  if p.hasStreams then (some (p.kind matches .program ..), { p with hasStreams := false })
  else (none, p)

/-- Writes bytes to the other side and reads exactly so many. -/
def echo (bytes : Frame.Bytes) (count : Nat) (p : Provider) : Option Frame.Bytes × Provider :=
  match p.child with
  | none => (none, p)
  | some child =>
    let (received, child) := (child.write bytes).read? count
    (received, { p with child := some child, hasSettled := true })

/-- The streams that were given out are dropped. -/
def dropStreams (p : Provider) : Provider :=
  { p with child := p.child.map (·.closeInput), hasSettled := true }

/-- Takes the connection down. A program is ended; others may go on with their streams. -/
def stop (p : Provider) : Provider :=
  let child := if p.kind matches .program .. then none else p.child
  { p with hasStreams := false, isOpen := false, child }

end Provider

end LanguageHub
