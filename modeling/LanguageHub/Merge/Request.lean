import LanguageHub.Hub.Basic

/-!
# Asking several servers at once

The requests of a call run side by side under one cancellation. Once that is cancelled the
call fails as a whole: its requests get a moment to tell their servers, and no answer
counts any more. Otherwise the answers are merged, and each failure is reported. A call
that is dropped before its end is cancelled.
-/

namespace LanguageHub.Merge

open Routine (get gets modify modifyGet waitUntil)

/-- How long the requests of a cancelled call may go on. -/
def drainTime : Duration := .ofSeconds 1

/-- Reports the failures of a method's requests. -/
def report (method : String) (failures : List ServerFailure) (h : Hub) : Hub :=
  failures.foldl (fun h f => h.emit (.requestFailed f.serverId method f.error.message)) h

/-- Lets the requests of a cancelled call go on for a moment. -/
def drain (rest : Program α) : Program (Except HubError β) := do
  let deadline ← modifyGet (Hub.startTimer drainTime)
  let _ ← rest.giveUpWhen (·.hasPassed deadline)
  pure (.error .cancelled)

/-- What the answers of a call come to, unless it was cancelled while they came. -/
def conclude (method : String) (cancellation : Nat) (answers : List (ServerAnswer α)) :
    Program (Except HubError (Merged α)) := do
  if (← get).isCancelled cancellation then pure (.error .cancelled)
  else
    let merged := Merged.ofAnswers answers
    modify (report method merged.reported)
    pure (.ok merged)

/-- Runs the requests of a call and merges their answers. -/
def merge (method : String) (cancellation : Nat) (requests : List (Program (ServerAnswer α))) :
    Program (Except HubError (Merged α)) := do
  match ← (Routine.all requests).pauseWhen (·.isCancelled cancellation) with
  | .paused rest => drain rest
  | .finished answers => conclude method cancellation answers

/-- The call as its owner has it: dropping it cancels it, and with no server to ask there is
nothing to do. -/
def call (method : String) (cancellation : Nat) (requests : List (Program (ServerAnswer α))) :
    Program (Except HubError (Merged α)) :=
  if requests.isEmpty then pure (.ok .empty)
  else (merge method cancellation requests).onAbandon (Hub.cancel cancellation)

end LanguageHub.Merge
