import LanguageHub.Error
import LanguageHub.Hub.Basic

/-!
# Stand-ins for requests

Work takes some time and then has items or fails, as a request would.
-/

namespace LanguageHub.Simulation

open Routine (get modify modifyGet waitUntil)

structure Work where
  /-- How long it takes; for ever without it. -/
  lasts : Option Duration
  /-- It ends early when the call is cancelled. -/
  observes : Bool
  /-- It cancels the call itself before it ends. -/
  cancels : Bool
  result : Except HubError (List Json)

namespace Work

/-- Work as JSON describes it. -/
def ofJson (v : Json) : Work where
  lasts := (v.natAt? "after_ms").map .ofMillis
  observes := (v.boolAt? "observe").getD false
  cancels := (v.boolAt? "self_cancel").getD false
  result := ((v.get? "fail").bind HubError.ofJson?).elim (.ok (v.itemsAt "items")) .error

/-- Waits for the time of the work to pass. -/
def rest (w : Work) (stop : Hub → Bool) : Program Unit := do
  match w.lasts with
  | none => waitUntil stop
  | some d =>
    if d.isZero then pure ()
    else
      let deadline ← modifyGet (Hub.startTimer d)
      waitUntil fun h => stop h || h.hasPassed deadline

/-- The work under a cancellation, which comes before its end. -/
def program (w : Work) (cancellation : Nat) : Program (Except HubError (List Json)) := do
  let stop := fun (h : Hub) => w.observes && h.isCancelled cancellation
  let isStopped := stop (← get)
  if isStopped then pure (.error .cancelled)
  else
    w.rest stop
    if stop (← get) then pure (.error .cancelled)
    else
      if w.cancels then modify (Hub.cancel cancellation)
      pure w.result

end Work

end LanguageHub.Simulation
