import LanguageHub.Hub.Basic

/-!
# Waiting with an eye on the host editor

Some editors can only be asked whether they want to cancel. While a program waits, the
editor is asked at once and then at every tick; when it says yes, the call is cancelled
and the program goes on to its end unwatched. A program that can go on comes before a
question that is due.
-/

namespace LanguageHub

open Routine (get gets modify modifyGet)

/-- How the editor is asked. -/
structure CancelCheck where
  ask : Hub → Bool × Hub

namespace CancelCheck

/-- The editor around the hub is asked. -/
def host : CancelCheck where
  ask h :=
    let (answer, host) := h.host.ask
    (answer, { h with host })

/-- The cancellation itself serves as the editor's answer. -/
def ofCancellation (cancellation : Nat) : CancelCheck where
  ask h := (h.isCancelled cancellation, h)

/-- The time between two questions. -/
def interval : Duration := .ofMillis 25

/-- More questions than anybody could ask in a wait. -/
def limit : Nat := UInt64.size

/-- Waits at one place until the program can go on there, with the next question at `tick`:
either the program wakes up and is watched further, or the editor has it run to its end. -/
def watchWait (check : CancelCheck) (cancellation : Nat) (ready : Hub → Bool)
    (abandon : Hub → Hub) (wake : Duration → Program α) (rest : Program α) :
    Nat → Duration → Program α
  | 0, _ => .await ready abandon rest
  | fuel + 1, tick =>
    .await (fun h => ready h || h.hasPassed tick) abandon (.act id fun h =>
      if ready h then wake tick
      else
        .act (fun h => (check.ask h).2) fun h =>
          if (check.ask h).1 then .act (Hub.cancel cancellation) fun _ => .await ready abandon rest
          else
            .act (fun h => (h.startTimer interval).2) fun h =>
              watchWait check cancellation ready abandon wake rest fuel (h.startTimer interval).1)

/-- The program, watched from the question at `tick` on. -/
def watchFrom (check : CancelCheck) (cancellation : Nat) : Program α → Duration → Program α
  | .done a, _ => .done a
  | .act update next, tick => .act update fun h => watchFrom check cancellation (next h) tick
  | .spawn job next, tick => .spawn job (watchFrom check cancellation next tick)
  | .await ready abandon next, tick =>
    watchWait check cancellation ready abandon (watchFrom check cancellation next) next limit tick

/-- The program, while the editor is asked whether it wants to cancel. -/
def watch (check : CancelCheck) (cancellation : Nat) (p : Program α) : Program α := do
  watchFrom check cancellation p (← get).clock

end CancelCheck

end LanguageHub
