import LanguageHub.Merge.Polling
import LanguageHub.Proofs.Routine.Schedule

/-!
# Vigils

A program that is watched goes on as it would by itself; when a question to the editor is due
and the program has to wait, the editor is asked. What the editor says is written down here,
and the watched program is shown to be just that.
-/

namespace LanguageHub

open Routine

/-- A program with the editor beside it. -/
structure Vigil (α : Type) where
  program : Stage Job Hub α
  /-- When the next question is due, and how many more may follow it in this wait; none is once
  the editor has said yes. -/
  next : Option (Nat × Duration)
  /-- What the editor has said. -/
  answers : List Bool

namespace Vigil

variable {α : Type} (check : CancelCheck) (c : Nat)

/-- How many questions may follow the first one of a wait. -/
def patience : Nat := CancelCheck.limit - 1

theorem limit_eq : CancelCheck.limit = patience + 1 := by decide +kernel

/-- A program begins, and the first question is due at once. -/
def ofProgram (p : Program α) (h : Hub) : Vigil α :=
  ⟨p.legFrom h [], some (patience, h.clock), []⟩

/-- The question after one that was answered in the negative. -/
def another (tick : Duration) : Nat → Option (Nat × Duration)
  | 0 => none
  | more + 1 => some (more, tick)

/-- The editor is asked. -/
def ask (v : Vigil α) (more : Nat) : Vigil α :=
  let h := (check.ask v.program.state).2
  if (check.ask v.program.state).1 then
    ⟨{ v.program with state := h.cancel c }, none, v.answers ++ [true]⟩
  else
    let (tick, h) := h.startTimer CancelCheck.interval
    ⟨{ v.program with state := h }, another tick more, v.answers ++ [false]⟩

def step (v : Vigil α) : Move Hub → Vigil α
  | .others change => { v with program := v.program.step (.others change) }
  | .goOn =>
    match v.next with
    | none => { v with program := v.program.step .goOn }
    | some (more, tick) =>
      if v.program.rest.canGo v.program.state then
        { v with program := v.program.step .goOn, next := some (patience, tick) }
      else if v.program.result? = none ∧ v.program.state.hasPassed tick = true then
        v.ask check c more
      else v

def run (v : Vigil α) (moves : List (Move Hub)) : Vigil α := moves.foldl (step check c) v

/-! ## The watched program -/

/-- What is left of the watched program. -/
def rest (v : Vigil α) : Program α :=
  match v.next, v.program.rest with
  | some (more, tick), .await ready abandon next =>
    CancelCheck.watchWait check c ready abandon (CancelCheck.watchFrom check c next) next
      (more + 1) tick
  | _, p => p

/-- How far the watched program has come. -/
def stage (v : Vigil α) : Stage Job Hub α := ⟨v.program.state, v.program.jobs, v.rest check c⟩

theorem result?_stage (v : Vigil α) : (v.stage check c).result? = v.program.result? := by
  obtain ⟨⟨s, jobs, p⟩, next, answers⟩ := v
  cases next <;> cases p <;> rfl

/-- Nothing is left but the program once the editor is not asked any more. -/
theorem stage_of_none {v : Vigil α} (h : v.next = none) : v.program = v.stage check c := by
  obtain ⟨⟨s, jobs, p⟩, next, answers⟩ := v
  obtain rfl : next = none := h
  rfl

theorem legFrom_watchFrom (p : Program α) (tick : Duration) (h : Hub) (jobs : List Job)
    (answers : List Bool) : (CancelCheck.watchFrom check c p tick).legFrom h jobs =
      (⟨p.legFrom h jobs, some (patience, tick), answers⟩ : Vigil α).stage check c := by
  induction p generalizing h jobs with
  | done a => rfl
  | act update next ih => exact ih _ _ _
  | spawn job next ih => exact ih _ _
  | await ready abandon next ih =>
    rw [CancelCheck.watchFrom, limit_eq]
    rfl

theorem stage_ofProgram (p : Program α) (h : Hub) :
    Stage.ofRoutine (CancelCheck.watch check c p) h = (ofProgram p h).stage check c :=
  legFrom_watchFrom check c p h.clock h [] []

/-- Where the watched program waits, it looks first whether the program can go on. -/
theorem goOn_stage (s : Hub) (jobs : List Job) (ready : Hub → Bool) (abandon : Hub → Hub)
    (next : Program α) (more : Nat) (tick : Duration) (answers : List Bool) :
    ((⟨⟨s, jobs, .await ready abandon next⟩, some (more, tick), answers⟩ : Vigil α).stage
        check c).step .goOn =
      ((⟨⟨s, jobs, .await ready abandon next⟩, some (more, tick), answers⟩ : Vigil α).step
        check c .goOn).stage check c := by
  change (CancelCheck.watchWait check c ready abandon (CancelCheck.watchFrom check c next) next
    (more + 1) tick).advance s jobs = _
  rw [CancelCheck.watchWait, advance_await]
  by_cases hready : ready s = true
  · simp only [hready, step, canGo, Stage.step, Bool.true_or, if_true, legFrom_act, id_eq]
    rw [legFrom_watchFrom check c next tick s jobs answers, advance_await, if_pos hready]
  · by_cases hdue : s.hasPassed tick = true
    · by_cases hyes : (check.ask s).1 = true
      · simp [step, canGo, Stage.result?, Routine.result?, hready, hdue, hyes, ask, stage, rest]
      · cases more with
        | zero => simp [step, canGo, Stage.result?, Routine.result?, hready, hdue, hyes, ask, stage,
            rest, another, CancelCheck.watchWait]
        | succ more => simp [step, canGo, Stage.result?, Routine.result?, hready, hdue, hyes, ask,
            stage, rest, another, CancelCheck.watchWait]
    · simp [step, canGo, Stage.result?, Routine.result?, hready, hdue, stage, rest,
        CancelCheck.watchWait]

/-- The watched program does in its turn what the program or the editor does. -/
theorem stage_step {v : Vigil α} (hv : v.program.rest.IsSettled) (move : Move Hub) :
    (v.stage check c).step move = (v.step check c move).stage check c := by
  obtain ⟨⟨s, jobs, p⟩, next, answers⟩ := v
  cases move with
  | others change =>
    simp only [Stage.step, result?_stage, step]
    split <;> cases next <;> cases p <;> rfl
  | goOn =>
    cases p with
    | done a => cases next <;> rfl
    | await ready abandon rest =>
      cases next with
      | none => rfl
      | some question =>
        obtain ⟨more, tick⟩ := question
        exact goOn_stage check c s jobs ready abandon rest more tick answers
    | act update next => exact hv.elim
    | spawn job next => exact hv.elim

theorem rest_ask (v : Vigil α) (more : Nat) :
    (v.ask check c more).program.rest = v.program.rest := by
  unfold ask
  split <;> rfl

theorem isSettled_step {v : Vigil α} (hv : v.program.rest.IsSettled) (move : Move Hub) :
    (v.step check c move).program.rest.IsSettled := by
  cases move with
  | others change => exact Stage.isSettled_step hv _
  | goOn =>
    simp only [step]
    split
    · exact Stage.isSettled_step hv _
    · split
      · exact Stage.isSettled_step hv _
      · split
        · rw [rest_ask]
          exact hv
        · exact hv

theorem stage_run {v : Vigil α} (hv : v.program.rest.IsSettled) (moves : List (Move Hub)) :
    (v.stage check c).run moves = (v.run check c moves).stage check c := by
  induction moves generalizing v with
  | nil => rfl
  | cons move rest ih =>
    change ((v.stage check c).step move).run rest = _
    rw [stage_step check c hv]
    exact ih (isSettled_step check c hv move)

end Vigil

end LanguageHub
