import LanguageHub.Merge.Request
import LanguageHub.Proofs.Routine.Stopping
import LanguageHub.Proofs.Routine.Team

/-!
# How far a call has come

The requests of a call are a team, and the call follows it: it gathers the answers until all
are there or it notices that it was cancelled. In that case it winds down, whatever the
requests come to.
-/

namespace LanguageHub.Merge

open Routine

variable {α β : Type} {method : String} {c : Nat}

/-- How a call stands, with the hub as it is then. -/
abbrev CallStage (α : Type) := Stage Job Hub (Except HubError (Merged α))

/-! ## The parts of a call -/

/-- The call while its requests are under way. -/
def gathering (method : String) (c : Nat) (p : Program (List (ServerAnswer α))) :
    Program (Except HubError (Merged α)) :=
  (pauseAt (·.isCancelled c) p).bind fun
    | .paused rest => drain rest
    | .finished answers => conclude method c answers

/-- The call once it has noticed that it was cancelled. -/
def draining (deadline : Duration) (p : Program β) : Program (Except HubError (Merged α)) :=
  (p.giveUpWhen (·.hasPassed deadline)).bind fun _ => .done (.error .cancelled)

/-- Where a call comes to that has all answers. -/
def concluded (method : String) (c : Nat) (answers : List (ServerAnswer α)) (h : Hub)
    (jobs : List Job) : CallStage α :=
  if h.isCancelled c then ⟨h, jobs, .done (.error .cancelled)⟩
  else
    ⟨report method (Merged.ofAnswers answers).reported h, jobs,
      .done (.ok (.ofAnswers answers))⟩

theorem legFrom_conclude (answers : List (ServerAnswer α)) (h : Hub) (jobs : List Job) :
    (conclude method c answers).legFrom h jobs = concluded method c answers h jobs := by
  change ((if h.isCancelled c then _ else _ : Program _).legFrom h jobs) = _
  unfold concluded
  split <;> rfl

/-- Once the answers are there the call is concluded. -/
def gathered (method : String) (c : Nat) (st : Stage Job Hub (List (ServerAnswer α))) :
    CallStage α :=
  match st.result? with
  | some answers => concluded method c answers st.state st.jobs
  | none => ⟨st.state, st.jobs, gathering method c st.rest⟩

theorem gathered_of_none {ts : Stage Job Hub (List (ServerAnswer α))} (h : ts.result? = none) :
    gathered method c ts = ⟨ts.state, ts.jobs, gathering method c ts.rest⟩ := by
  rw [gathered, h]

theorem result?_gathered {ts : Stage Job Hub (List (ServerAnswer α))} (h : ts.result? = none) :
    (gathered method c ts).result? = none := by
  rw [gathered_of_none h]
  cases hrest : ts.rest with
  | done answers => simp [Stage.result?, hrest, Routine.result?] at h
  | _ => rfl

theorem andThen_pauseAt {st : Stage Job Hub (List (ServerAnswer α))} (h : st.rest.IsSettled) :
    (⟨st.state, st.jobs, pauseAt (·.isCancelled c) st.rest⟩ : Stage _ _ _).andThen (fun
      | .paused rest => drain rest
      | .finished answers => conclude method c answers) = gathered method c st := by
  obtain ⟨s, j, rest⟩ := st
  cases rest with
  | done answers => exact legFrom_conclude answers s j
  | await ready abandon next => rfl
  | act update next => exact h.elim
  | spawn job next => exact h.elim

theorem andThen_giveUpWhen {st : Stage Job Hub β} (h : st.rest.IsSettled) (deadline : Duration) :
    (⟨st.state, st.jobs, st.rest.giveUpWhen (·.hasPassed deadline)⟩ : Stage _ _ _).andThen
        (fun _ => .done (.error .cancelled)) =
      (⟨st.state, st.jobs, draining deadline st.rest⟩ : CallStage α) := by
  obtain ⟨s, j, rest⟩ := st
  cases rest with
  | done b => rfl
  | await ready abandon next => rfl
  | act update next => exact h.elim
  | spawn job next => exact h.elim

theorem legFrom_gathering (p : Program (List (ServerAnswer α))) (h : Hub) (jobs : List Job) :
    (gathering method c p).legFrom h jobs = gathered method c (p.legFrom h jobs) := by
  rw [gathering, legFrom_bind, legFrom_pauseAt]
  exact andThen_pauseAt (isSettled_legFrom p h jobs)

theorem legFrom_draining (deadline : Duration) (p : Program β) (h : Hub) (jobs : List Job) :
    (draining deadline p : Program (Except HubError (Merged α))).legFrom h jobs =
      ⟨(p.legFrom h jobs).state, (p.legFrom h jobs).jobs,
        draining deadline (p.legFrom h jobs).rest⟩ := by
  rw [draining, legFrom_bind, legFrom_giveUpWhen]
  exact andThen_giveUpWhen (isSettled_legFrom p h jobs) deadline

theorem legFrom_drain (p : Program β) (h : Hub) (jobs : List Job) :
    (drain p : Program (Except HubError (Merged α))).legFrom h jobs =
      (draining (h.startTimer drainTime).1 p).legFrom (h.startTimer drainTime).2 jobs := rfl

/-- A call that gathers answers notices first that it was cancelled. -/
theorem advance_gathering {p : Program (List (ServerAnswer α))} (hp : p.IsSettled)
    (hwaits : p.result? = none) (h : Hub) (jobs : List Job) :
    (gathering method c p).advance h jobs =
      if h.isCancelled c then (drain p).legFrom h jobs
      else gathered method c (p.advance h jobs) := by
  cases p with
  | done answers => cases hwaits
  | await ready abandon next =>
    rw [gathering, advance_bind (p := pauseAt _ (await ready abandon next)) trivial rfl,
      advance_pauseAt]
    split
    · rfl
    · exact andThen_pauseAt (IsSettled.advance (p := await ready abandon next) trivial h jobs)
  | act update next => exact hp.elim
  | spawn job next => exact hp.elim

/-- A call that winds down lets its requests go on, or gives them up when it is late. -/
theorem advance_draining (deadline : Duration) (ready : Hub → Bool) (abandon : Hub → Hub)
    (next : Program β) (h : Hub) (jobs : List Job) :
    (draining deadline (await ready abandon next) : Program (Except HubError (Merged α))).advance
        h jobs =
      if ready h = false ∧ h.hasPassed deadline = true then
        ⟨abandon h, jobs, .done (.error .cancelled)⟩
      else
        ⟨((await ready abandon next).advance h jobs).state,
          ((await ready abandon next).advance h jobs).jobs,
          draining deadline ((await ready abandon next).advance h jobs).rest⟩ := by
  rw [draining, advance_bind (p := (await ready abandon next).giveUpWhen _) trivial rfl,
    advance_giveUpWhen]
  split
  · rfl
  · exact andThen_giveUpWhen (IsSettled.advance (p := await ready abandon next) trivial h jobs)
      deadline

/-! ## The call and its requests -/

/-- The call notices no answers any more, and its requests keep what they are to keep. -/
structure WindsDown (c : Nat) (inv : Hub → Prop) (deadline : Duration) (st : CallStage α) :
    Prop where
  kept : inv st.state
  isCancelled : st.state.isCancelled c = true
  rest : ∃ p : Program (List (ServerAnswer α)), p.IsSettled ∧
    p.Preserves inv ∧ p.Preserves (·.isCancelled c = true) ∧ st.rest = draining deadline p

/-- The requests keep what they are to keep. -/
structure Proceeds (c : Nat) (inv : Hub → Prop) (ts : Stage Job Hub (List (ServerAnswer α))) :
    Prop where
  kept : inv ts.state
  isSettled : ts.rest.IsSettled
  preserves : ts.rest.Preserves inv
  stays : ts.rest.Preserves (·.isCancelled c = true)

/-- How a call stands when its requests have come so far: it has gathered what they came to, or
it was cancelled before that. -/
inductive Follows (method : String) (c : Nat) (inv : Hub → Prop)
    (ts : Stage Job Hub (List (ServerAnswer α))) : CallStage α → Prop where
  | gathered (h : Proceeds c inv ts) : Follows method c inv ts (gathered method c ts)
  | cancelled {deadline : Duration} {st : CallStage α} (h : WindsDown c inv deadline st) :
    Follows method c inv ts st

section Running

variable {inv : Hub → Prop} {ts : Stage Job Hub (List (ServerAnswer α))} {st : CallStage α}
  {p : Program (List (ServerAnswer α))} {move : Move Hub}

/-- What the requests keep is kept by the call that winds down. -/
theorem windsDown_draining (hp : p.Preserves inv) (hc : p.Preserves (·.isCancelled c = true))
    {h : Hub} (hinv : inv h) (hcancelled : h.isCancelled c = true) (deadline : Duration)
    (jobs : List Job) :
    WindsDown c inv deadline ((draining deadline p).legFrom h jobs : CallStage α) := by
  rw [legFrom_draining]
  exact ⟨hp.kept_legFrom hinv jobs, hc.kept_legFrom hcancelled jobs, _,
    isSettled_legFrom p h jobs, hp.legFrom h jobs, hc.legFrom h jobs, rfl⟩

theorem WindsDown.step {deadline : Duration} (hst : WindsDown c inv deadline st)
    (hmove : move.Preserve inv) (hkeep : move.Preserve (·.isCancelled c = true)) :
    WindsDown c inv deadline (st.step move) := by
  obtain ⟨hinv, hcancelled, p, hsettled, hp, hc, hrest⟩ := hst
  cases move with
  | others change =>
    simp only [Stage.step]
    split
    · exact ⟨hinv, hcancelled, p, hsettled, hp, hc, hrest⟩
    · exact ⟨hmove _ hinv, hkeep _ hcancelled, p, hsettled, hp, hc, hrest⟩
  | goOn =>
    simp only [Stage.step, hrest]
    cases p with
    | done answers => exact ⟨hinv, hcancelled, _, hsettled, hp, hc, rfl⟩
    | await ready abandon next =>
      rw [advance_draining]
      split
      · exact ⟨hp.1 _ hinv, hc.1 _ hcancelled, done [], trivial, trivial, trivial, rfl⟩
      · exact ⟨hp.kept_advance hinv _, hc.kept_advance hcancelled _, _,
          hsettled.advance _ _, hp.advance _ _, hc.advance _ _, rfl⟩
    | act update next => exact hsettled.elim
    | spawn job next => exact hsettled.elim

theorem Proceeds.step (h : Proceeds c inv ts) (hmove : move.Preserve inv) :
    Proceeds c inv (ts.step move) where
  kept := Stage.kept_step h.preserves h.kept hmove
  isSettled := Stage.isSettled_step h.isSettled move
  preserves := Stage.preserves_step h.preserves move
  stays := Stage.preserves_step h.stays move

theorem result?_concluded (answers : List (ServerAnswer α)) (h : Hub) (jobs : List Job) :
    (concluded method c answers h jobs).result? =
      some (if h.isCancelled c then .error .cancelled else .ok (.ofAnswers answers)) := by
  unfold concluded
  split <;> rfl

theorem result?_gathered_of_some (method : String) (c : Nat) {answers : List (ServerAnswer α)}
    (h : ts.result? = some answers) : (gathered method c ts).result? = some
      (if ts.state.isCancelled c then .error .cancelled else .ok (.ofAnswers answers)) := by
  rw [gathered, h]
  exact result?_concluded answers ts.state ts.jobs

theorem step_gathered_of_some {answers : List (ServerAnswer α)} (h : ts.result? = some answers)
    (move : Move Hub) : (gathered method c ts).step move = gathered method c (ts.step move) := by
  rw [Stage.step_of_result? h, Stage.step_of_result? (result?_gathered_of_some method c h)]

theorem step_gathered_others (change : Hub → Hub) :
    (gathered method c ts).step (.others change) =
      gathered method c (ts.step (.others change)) := by
  cases h : ts.result? with
  | some answers => exact step_gathered_of_some h _
  | none =>
    have hstill : Stage.result? (⟨change ts.state, ts.jobs, ts.rest⟩ :
        Stage Job Hub (List (ServerAnswer α))) = none := h
    rw [Stage.step_others (result?_gathered h), Stage.step_others h, gathered_of_none h]
    exact (gathered_of_none hstill).symm

/-- When it is its turn, a call that waits looks first whether it was cancelled. -/
theorem step_gathered_goOn (hts : ts.rest.IsSettled) :
    (gathered method c ts).step .goOn =
      if ts.result? = none ∧ ts.state.isCancelled c = true then
        (drain ts.rest).legFrom ts.state ts.jobs
      else gathered method c (ts.step .goOn) := by
  cases h : ts.result? with
  | some answers =>
    rw [if_neg (by simp)]
    exact step_gathered_of_some h _
  | none =>
    rw [gathered_of_none h]
    change (gathering method c ts.rest).advance ts.state ts.jobs = _
    rw [advance_gathering hts h]
    simp only [true_and]
    rfl

/-- A call that is not cancelled gathers what its requests come to next. -/
theorem step_gathered (hts : ts.rest.IsSettled) (hlive : ts.state.isCancelled c = false)
    (move : Move Hub) :
    (gathered method c ts).step move = gathered method c (ts.step move) := by
  cases move with
  | others change => exact step_gathered_others change
  | goOn => rw [step_gathered_goOn hts, if_neg (by simp [hlive])]

/-- A call follows its requests until it notices that it was cancelled. -/
theorem Follows.step (hclock : ∀ h d, inv h → inv (Hub.startTimer d h).2)
    (hst : Follows method c inv ts st) (hmove : move.Preserve inv)
    (hkeep : move.Preserve (·.isCancelled c = true)) :
    Follows method c inv (ts.step move) (st.step move) := by
  cases hst with
  | cancelled h => exact .cancelled (h.step hmove hkeep)
  | gathered h =>
    have hnext : Follows method c inv (ts.step move) (Merge.gathered method c (ts.step move)) :=
      .gathered (h.step hmove)
    cases move with
    | others change =>
      rw [step_gathered_others]
      exact hnext
    | goOn =>
      rw [step_gathered_goOn h.isSettled]
      split
      · rename_i hcancelled
        exact .cancelled (windsDown_draining h.preserves h.stays (hclock _ _ h.kept)
          hcancelled.2 _ _)
      · exact hnext

theorem Follows.run (hclock : ∀ h d, inv h → inv (Hub.startTimer d h).2)
    (hst : Follows method c inv ts st) {moves : List (Move Hub)}
    (hmoves : ∀ move ∈ moves, move.Preserve inv)
    (hkeep : ∀ move ∈ moves, move.Preserve (·.isCancelled c = true)) :
    Follows method c inv (ts.run moves) (st.run moves) := by
  induction moves generalizing ts st with
  | nil => exact hst
  | cons move rest ih =>
    rw [List.forall_mem_cons] at hmoves hkeep
    exact ih (hst.step hclock hmoves.1 hkeep.1) hmoves.2 hkeep.2

end Running

/-! ## From the start -/

/-- A call asks once before its requests begin whether it was cancelled. -/
theorem legFrom_merge (requests : List (Program (ServerAnswer α))) (h : Hub) (jobs : List Job) :
    (merge method c requests).legFrom h jobs =
      if h.isCancelled c then (drain (Routine.all requests)).legFrom h jobs
      else gathered method c (Team.ofRoutines requests h jobs).stage := by
  have hbegin : (merge method c requests).legFrom h jobs =
      (((if h.isCancelled c then done (.paused (Routine.all requests))
        else pauseAt (·.isCancelled c) (Routine.all requests)) : Program _).bind fun
          | .paused rest => drain rest
          | .finished answers => conclude method c answers).legFrom h jobs := rfl
  rw [hbegin]
  split
  · rfl
  · rw [← legFrom_all]
    exact legFrom_gathering (Routine.all requests) h jobs

/-- How a call goes that has something to ask, its owner's cleanup aside. -/
theorem run_call {requests : List (Program (ServerAnswer α))} (hsome : requests ≠ []) (h : Hub)
    (moves : List (Move Hub)) :
    (Stage.ofRoutine (call method c requests) h).run moves =
      { (Stage.ofRoutine (merge method c requests) h).run moves with
        rest := ((Stage.ofRoutine (merge method c requests) h).run moves).rest.onAbandon
          (Hub.cancel c) } := by
  have hcall : call method c requests = (merge method c requests).onAbandon (Hub.cancel c) :=
    if_neg (by simpa using hsome)
  rw [hcall, Stage.ofRoutine, legFrom_onAbandon]
  exact Stage.run_onAbandon _ (isSettled_legFrom _ h []) moves

end LanguageHub.Merge
