import LanguageHub.Routine.Basic

/-!
# Putting routines together

Routines side by side within one, and routines that stop early: `both` and `all` run
routines beside each other and keep the order of their results, `pauseWhen` stops one
where it waits and keeps the rest of it, and `giveUpWhen` gives one up that takes too long.
-/

namespace LanguageHub.Routine

variable {Job σ α β γ : Type}

/-! ## Side by side -/

/-- Goes on with `other` while a routine beside it waits: `wake` is what follows once that
one is ready, and `finish` once `other` is done. -/
def whileWaiting (ready : σ → Bool) (abandon : σ → σ) (wake : Routine Job σ β → Routine Job σ γ)
    (finish : β → Routine Job σ γ) : Routine Job σ β → Routine Job σ γ
  | done b => await ready abandon (finish b)
  | act update next => act update fun s => whileWaiting ready abandon wake finish (next s)
  | spawn job next => spawn job (whileWaiting ready abandon wake finish next)
  | await ready' abandon' next =>
    await (fun s => ready s || ready' s) (fun s => abandon' (abandon s)) (act id fun s =>
      if ready s then wake (await ready' abandon' next)
      else whileWaiting ready abandon wake finish next)

/-- Runs two routines side by side. Where both can go on, the first one does. -/
def both : Routine Job σ α → Routine Job σ β → Routine Job σ (α × β)
  | done a, q => q.map (a, ·)
  | act update next, q => act update fun s => both (next s) q
  | spawn job next, q => spawn job (both next q)
  | await ready abandon next, q =>
    whileWaiting ready abandon (both next) (fun b => next.map (·, b)) q

/-- Runs all of them side by side; the results come in the order of the routines. -/
def all : List (Routine Job σ α) → Routine Job σ (List α)
  | [] => done []
  | p :: ps => (both p (all ps)).map fun (a, as) => a :: as

/-! ## One after the other -/

/-- Runs one after the other. -/
def inOrder : List (Routine Job σ α) → Routine Job σ (List α)
  | [] => done []
  | p :: ps => p.bind fun a => (inOrder ps).map (a :: ·)

/-- Runs one after the other until one fails. -/
def untilFailure {ε : Type} : List (Routine Job σ (Except ε Unit)) →
    Routine Job σ (Except ε Unit)
  | [] => done (.ok ())
  | p :: ps => p.bind fun
    | .ok () => untilFailure ps
    | .error e => done (.error e)

/-! ## Stopping early -/

/-- How far a routine came before it was stopped. -/
inductive Paused (Job σ α : Type) where
  | finished (a : α)
  | paused (rest : Routine Job σ α)

/-- Goes on until it is done or waits while `stop` holds. -/
def pauseAt (stop : σ → Bool) : Routine Job σ α → Routine Job σ (Paused Job σ α)
  | done a => done (.finished a)
  | act update next => act update fun s => pauseAt stop (next s)
  | spawn job next => spawn job (pauseAt stop next)
  | await ready abandon next =>
    await (fun s => stop s || ready s) abandon (act id fun s =>
      if stop s then done (.paused (await ready abandon next)) else pauseAt stop next)

/-- Runs until `stop` holds, which is asked before the start and wherever it waits. -/
def pauseWhen (stop : σ → Bool) (p : Routine Job σ α) : Routine Job σ (Paused Job σ α) :=
  act id fun s => if stop s then done (.paused p) else pauseAt stop p

/-- Runs until it is done or `stop` holds, which counts first; then it is dropped. -/
def untilStopped (stop : σ → Bool) (p : Routine Job σ α) : Routine Job σ (Option α) :=
  (pauseWhen stop p).bind fun
    | .finished a => done (some a)
    | .paused rest => act rest.abandon fun _ => done none

/-- Runs until it is done or, when it has to wait, `isLate` holds; then it is dropped. -/
def giveUpWhen (isLate : σ → Bool) : Routine Job σ α → Routine Job σ (Option α)
  | done a => done (some a)
  | act update next => act update fun s => giveUpWhen isLate (next s)
  | spawn job next => spawn job (giveUpWhen isLate next)
  | await ready abandon next =>
    await (fun s => ready s || isLate s) abandon (act id fun s =>
      if ready s then giveUpWhen isLate next else act abandon fun _ => done none)

end LanguageHub.Routine
