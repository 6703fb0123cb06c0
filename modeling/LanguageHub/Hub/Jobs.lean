import LanguageHub.Client.Reader
import LanguageHub.Feature.Request
import LanguageHub.Hub.Documents
import LanguageHub.Hub.Servers

/-!
# Calls and jobs as programs
-/

namespace LanguageHub

open Routine (get gets modify modifyGet)

namespace Outcome

def ofUnit : Except HubError Unit → Outcome
  | .ok () => .value (.ok .null)
  | .error e => .value (.error e)

/-- Nothing can go wrong. -/
def nothing : Outcome := .value (.ok .null)

end Outcome

namespace Call

/-- An answer in the form of a shape, in which null may stand for nothing. -/
def inShape (shape : Option Schema) (answer : Except HubError Json) : Except HubError Json :=
  match shape with
  | none => answer
  | some s => answer.bind fun v =>
    match s.readOption? v with
    | some v => .ok (v.getD .null)
    | none => .error .malformedPayload

/-- What a call does. -/
def program : Call → Program Outcome
  | request c method params cancellation timeout shape => do
    let answer ← Client.holding c (Client.request c method params cancellation timeout)
    pure (.value (inShape shape answer))
  | notify c method params => do
    pure (.ofUnit (← Client.holding c (Client.notify c method params)))
  | shutDown c timeout => do
    pure (.ofUnit (← Client.holding c (Client.shutDown c timeout)))
  | startSession s => do pure (.ofUnit (← Session.start s))
  | stopSession s => do
    Session.stop s
    pure .nothing
  | restartSession s => do pure (.ofUnit (← Session.restart s))
  | pushSettings s => do pure (.ofUnit (← Session.pushSettings s))
  | connect s document text => do
    pure (.ofUnit ((← Session.connect s document text).map fun _ => ()))
  | disconnect s uri => do
    Session.disconnect s uri
    pure .nothing
  | commit s uri => do pure (.value (.ok (.ofOption .ofNat (← Session.commit s uri))))
  | save s uri text => do
    Session.save s uri text
    pure .nothing
  | connectDocument document text => do
    let accepted ← Hub.connectDocument document text
    let h ← get
    pure (.value (.ok (.ofStrings (accepted.map fun s => (h.session s).shown))))
  | disconnectDocument uri => do
    Hub.disconnectDocument uri
    pure .nothing
  | commitDocument uri => do
    Hub.commitDocument uri
    pure .nothing
  | saveDocument uri text => do
    Hub.saveDocument uri text
    pure .nothing
  | restartServer id => do pure (.ofUnit (← Hub.restartServer id))
  | stopServer id => do
    Hub.stopServer id
    pure .nothing
  | shutDownAll => do
    Hub.shutDownAll
    pure .nothing
  | ask r => do pure (.merged (← r.run))
  | cancelAfter cancellation delay => do
    Program.sleep delay
    modify (Hub.cancel cancellation)
    pure .nothing

end Call

/-- What a job does, and which job it goes on as. -/
def Job.program : Job → Program (Option Job)
  | read c => do pure (if ← Client.listen c then some (.read c) else none)
  | watchConnection s c epoch => do
    Session.watchConnection s c epoch
    pure none
  | stopWhenIdle s attachments => do
    Session.stopWhenIdle s attachments
    pure none
  | watchRegistry cursor => do pure (some (.watchRegistry (← Hub.followNext cursor)))
  | call slot c => do
    let outcome ← c.program
    modify (Hub.finish slot outcome)
    pure none

end LanguageHub
