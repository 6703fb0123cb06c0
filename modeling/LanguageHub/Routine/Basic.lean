/-!
# Routines

A routine is a program that shares a state with others. What it does between two waits
nobody sees unfinished; only where it waits may others go on. A routine that is dropped
while it waits first cleans up. Routines that never end are made of jobs: a routine may
start a job beside itself, and a job that ends may name the job that it goes on as.

Laws: `bind` is the bind of a lawful monad, up to the routines that follow.
-/

namespace LanguageHub

inductive Routine (Job σ α : Type) where
  | done (a : α)
  /-- Changes the state and goes on with what it was before the change. -/
  | act (update : σ → σ) (next : σ → Routine Job σ α)
  /-- Starts a job beside this routine. -/
  | spawn (job : Job) (next : Routine Job σ α)
  /-- Goes on once the state is `ready`; dropped before that, it leaves `abandon` behind. -/
  | await (ready : σ → Bool) (abandon : σ → σ) (next : Routine Job σ α)

namespace Routine

variable {Job σ α β γ : Type}

def bind : Routine Job σ α → (α → Routine Job σ β) → Routine Job σ β
  | done a, f => f a
  | act update next, f => act update fun s => (next s).bind f
  | spawn job next, f => spawn job (next.bind f)
  | await ready abandon next, f => await ready abandon (next.bind f)

def map (f : α → β) (p : Routine Job σ α) : Routine Job σ β := p.bind fun a => done (f a)

instance : Monad (Routine Job σ) where
  pure := done
  bind := bind
  map := map

theorem bind_done (p : Routine Job σ α) : p.bind done = p := by
  induction p with
  | done a => rfl
  | act update next ih => simp only [bind, ih]
  | spawn job next ih => simp only [bind, ih]
  | await ready abandon next ih => simp only [bind, ih]

theorem bind_assoc (p : Routine Job σ α) (f : α → Routine Job σ β) (g : β → Routine Job σ γ) :
    (p.bind f).bind g = p.bind fun a => (f a).bind g := by
  induction p with
  | done a => rfl
  | act update next ih => simp only [bind, ih]
  | spawn job next ih => simp only [bind, ih]
  | await ready abandon next ih => simp only [bind, ih]

/-! ## Steps -/

/-- The state as it is. -/
def get : Routine Job σ σ := act id done

/-- A part of the state as it is. -/
def gets (f : σ → α) : Routine Job σ α := act id fun s => done (f s)

def modify (f : σ → σ) : Routine Job σ Unit := act f fun _ => done ()

/-- Changes the state and keeps what the change gives. -/
def modifyGet (f : σ → α × σ) : Routine Job σ α := act (fun s => (f s).2) fun s => done (f s).1

def start (job : Job) : Routine Job σ Unit := spawn job (done ())

def waitUntil (ready : σ → Bool) : Routine Job σ Unit := await ready id (done ())

/-- Waits for nothing, but lets others go on. -/
def giveWay : Routine Job σ Unit := waitUntil fun _ => true

/-! ## Cleaning up -/

/-- The routine that cleans up like this when it is dropped, before its own cleanup. -/
def onAbandon (cleanup : σ → σ) : Routine Job σ α → Routine Job σ α
  | done a => done a
  | act update next => act update fun s => (next s).onAbandon cleanup
  | spawn job next => spawn job (next.onAbandon cleanup)
  | await ready abandon next =>
    await ready (fun s => abandon (cleanup s)) (next.onAbandon cleanup)

/-- The routine that cleans up like this when it ends or is dropped, after its own cleanup. -/
def ensuring (cleanup : σ → σ) : Routine Job σ α → Routine Job σ α
  | done a => act cleanup fun _ => done a
  | act update next => act update fun s => (next s).ensuring cleanup
  | spawn job next => spawn job (next.ensuring cleanup)
  | await ready abandon next =>
    await ready (fun s => cleanup (abandon s)) (next.ensuring cleanup)

/-- What dropping the routine leaves behind. Only where it waits is there anything to clean. -/
def abandon : Routine Job σ α → σ → σ
  | await _ abandon _, s => abandon s
  | _, s => s

/-! ## Running -/

/-- The routine can go on. -/
def isReady : Routine Job σ α → σ → Bool
  | await ready _ _, s => ready s
  | _, _ => true

/-- Runs until it has to wait or is done; the jobs it started come with it. -/
def turn : Routine Job σ α → σ → List Job → σ × List Job × Routine Job σ α
  | done a, s, jobs => (s, jobs, done a)
  | act update next, s, jobs => (next s).turn (update s) jobs
  | spawn job next, s, jobs => next.turn s (jobs ++ [job])
  | await ready abandon next, s, jobs =>
    if ready s then next.turn s jobs else (s, jobs, await ready abandon next)

end Routine

end LanguageHub
