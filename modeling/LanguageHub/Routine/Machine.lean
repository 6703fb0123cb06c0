import LanguageHub.Routine.Basic

/-!
# Running jobs

A machine holds a state and the tasks that share it. A task is a job that was started and
has not ended; the tasks stand in the order in which they began to wait.
-/

namespace LanguageHub

/-- A job that runs: what is left of it, and which job it goes on as after that. -/
structure RunningTask (Job σ : Type) where
  id : Nat
  rest : Routine Job σ (Option Job)

structure Machine (Job σ : Type) where
  state : σ
  tasks : List (RunningTask Job σ)
  /-- The next task's id. -/
  nextTask : Nat

namespace Machine

variable {Job σ α : Type}

def ofState (s : σ) : Machine Job σ := ⟨s, [], 0⟩

def modify (f : σ → σ) (m : Machine Job σ) : Machine Job σ := { m with state := f m.state }

/-- Starts a job behind all tasks. -/
def start (program : Job → Routine Job σ (Option Job)) (m : Machine Job σ) (job : Job) :
    Machine Job σ :=
  { m with
    tasks := m.tasks ++ [⟨m.nextTask, program job⟩]
    nextTask := m.nextTask + 1 }

/-- Drops a task, which cleans up after it. -/
def abort (m : Machine Job σ) (id : Nat) : Machine Job σ :=
  match m.tasks.find? (·.id == id) with
  | none => m
  | some t => { m with state := t.rest.abandon m.state, tasks := m.tasks.filter (·.id != id) }

/-- The task that can go on and has waited longest, and the others. -/
def pickReady (s : σ) : List (RunningTask Job σ) →
    Option (RunningTask Job σ × List (RunningTask Job σ))
  | [] => none
  | t :: ts =>
    if t.rest.isReady s then some (t, ts)
    else (pickReady s ts).map fun (u, us) => (u, t :: us)

/-- The task that goes on after a turn: the rest of it, or the job that it names. -/
def following (program : Job → Routine Job σ (Option Job)) (id : Nat) :
    Routine Job σ (Option Job) → List (RunningTask Job σ)
  | .done none => []
  | .done (some job) => [⟨id, program job⟩]
  | rest => [⟨id, rest⟩]

/-- Lets a ready task go on until it waits; nothing when all wait. -/
def turn? (program : Job → Routine Job σ (Option Job)) (m : Machine Job σ) :
    Option (Machine Job σ) :=
  (pickReady m.state m.tasks).map fun (t, others) =>
    let (state, jobs, rest) := t.rest.turn m.state []
    jobs.foldl (start program) { m with state, tasks := others ++ following program t.id rest }

/-- Runs a routine until it waits, beside the tasks; the jobs that it starts become tasks. -/
def turnOf (program : Job → Routine Job σ (Option Job)) (m : Machine Job σ)
    (p : Routine Job σ α) : Machine Job σ × Routine Job σ α :=
  let (state, jobs, rest) := p.turn m.state []
  (jobs.foldl (start program) { m with state }, rest)

end Machine

end LanguageHub
