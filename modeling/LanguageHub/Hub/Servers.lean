import LanguageHub.Hub.Routing
import LanguageHub.Session.Documents

/-!
# Servers as a whole

Restarting and stopping all sessions of a definition, and following the registry: a
definition that is removed, replaced or disabled loses its sessions, new settings are told
to the servers, and new initialization options restart them.
-/

namespace LanguageHub.Hub

open Routine (get gets modify modifyGet waitUntil)

/-- Stops sessions side by side. -/
def stopAll (sessions : List Nat) : Program Unit := do
  let _ ← Routine.all (sessions.map Session.stop)

/-- Restarts a session that was ever started. -/
def restartStarted (s : Nat) : Program (Except HubError Unit) := do
  if ((← get).session s).state = .notStarted then pure (.ok ()) else Session.restart s

/-- The first failure of several attempts. -/
def firstFailure : List (Except HubError Unit) → Except HubError Unit
  | [] => .ok ()
  | .error e :: _ => .error e
  | .ok () :: rest => firstFailure rest

/-- Restarts the sessions of a definition's id one after the other; the first failure. -/
def restartServer (id : String) : Program (Except HubError Unit) := do
  let outcomes ← Routine.inOrder (((← get).sessionsOf id).map restartStarted)
  pure (firstFailure outcomes)

/-- Stops the sessions of a definition's id. -/
def stopServer (id : String) : Program Unit := do stopAll ((← get).sessionsOf id)

def shutDownAll : Program Unit := do stopAll (← get).roster

/-! ## Following the registry -/

/-- Restarts a session that runs. -/
def restartIfLive (s : Nat) : Program (Except HubError Unit) := do
  if ((← get).session s).state.isLive then Session.restart s else pure (.ok ())

/-- Takes the sessions of a definition's id out and stops them. -/
def retire (id : String) : Program Unit := do stopAll (← modifyGet (dropSessions id))

/-- Does what a change in the registry asks for. -/
def follow : RegistryEvent → Program Unit
  | .added _ => pure ()
  | .removed id | .replaced id => retire id
  | .changed id settings initializationOptions enabled => do
    let h ← get
    let isEnabled := (h.registry.find? id).any (·.enabled)
    if enabled ∧ !isEnabled then stopServer id
    else if initializationOptions then
      let _ ← Routine.untilFailure ((h.sessionsOf id).map restartIfLive)
    else if settings then
      let _ ← Routine.inOrder ((h.sessionsOf id).map Session.pushSettings)

/-- Waits for something new in the registry and follows it; how many events were seen then. -/
def followNext (cursor : Nat) : Program Nat := do
  waitUntil fun h => (h.registry.events.receive cursor).1 != .empty
  let (received, cursor) := (← get).registry.events.receive cursor
  match received with
  | .item e =>
    follow e
    pure cursor
  | _ => pure cursor

end LanguageHub.Hub
