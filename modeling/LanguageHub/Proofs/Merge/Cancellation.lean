import LanguageHub.Proofs.Merge.Progress
import LanguageHub.Proofs.Routine.Schedule

/-!
# Cancelled calls

A call that is cancelled before it ends comes to nothing but that, even when all answers are
there, and reports nothing. It does end: its requests may go on for a while and are then given
up. Conversely a call that comes to an answer was not cancelled when it did.
-/

namespace LanguageHub.Merge

open Routine

variable {α : Type} {method : String} {c : Nat}

/-- Changes that keep what is kept like this neither forget the cancellation nor take it back. -/
def Respects (c : Nat) (keeps : (Hub → Prop) → Prop) : Prop :=
  keeps (·.isCancelled c = true) ∧ keeps (c < ·.cancellations.length)

/-- The events that were sent since then are all of this kind. -/
inductive SentOnly (kind : EventKind → Prop) (start : EventHub) : EventHub → Prop where
  | nothing : SentOnly kind start start
  | send {e : EventHub} (now : Timestamp) (k : EventKind) (h : SentOnly kind start e)
      (hk : kind k) : SentOnly kind start (e.send now k)

/-! ## What a call comes to -/

/-- A call is cancelled as a whole, or it comes to a merged answer. -/
structure AllOrNothing (c : Nat) (st : CallStage α) : Prop where
  cancelled : ∀ r, st.result? = some r → st.state.isCancelled c = true → r = .error .cancelled
  whole : ∀ r, st.result? = some r → st.state.isCancelled c = false → ∃ m, r = .ok m

theorem isCancelled_report (failures : List ServerFailure) (h : Hub) :
    (report method failures h).isCancelled c = h.isCancelled c := by
  induction failures generalizing h with
  | nil => rfl
  | cons f rest ih => exact ih (h.emit _)

theorem allOrNothing_concluded (answers : List (ServerAnswer α)) (h : Hub) (jobs : List Job) :
    AllOrNothing c (concluded method c answers h jobs) := by
  unfold concluded
  by_cases hcancelled : h.isCancelled c = true
  · rw [if_pos hcancelled]
    exact ⟨fun r hr _ => (Option.some.inj hr).symm, fun r _ hlive => by simp_all⟩
  · rw [if_neg hcancelled]
    refine ⟨fun r _ hlate => ?_, fun r hr _ => ⟨_, (Option.some.inj hr).symm⟩⟩
    rw [isCancelled_report] at hlate
    exact absurd hlate hcancelled

section Following

variable {inv : Hub → Prop} {ts : Stage Job Hub (List (ServerAnswer α))} {st : CallStage α}
  {deadline : Duration} {β : Type}

theorem WindsDown.result (h : WindsDown c inv deadline st) {r : Except HubError (Merged α)}
    (hr : st.result? = some r) : r = .error .cancelled := by
  obtain ⟨p, hsettled, -, -, hrest⟩ := h.rest
  rw [Stage.result?, hrest] at hr
  cases p with
  | done answers => exact (Option.some.inj hr).symm
  | await ready abandon next => cases hr
  | act update next => exact hsettled.elim
  | spawn job next => exact hsettled.elim

theorem Follows.allOrNothing (h : Follows method c inv ts st) : AllOrNothing c st := by
  cases h with
  | gathered h =>
    cases hresult : ts.result? with
    | some answers =>
      rw [Merge.gathered, hresult]
      exact allOrNothing_concluded answers ts.state ts.jobs
    | none =>
      have hnone : (Merge.gathered method c ts).result? = none := result?_gathered hresult
      exact ⟨fun r hr => by simp [hnone] at hr, fun r hr => by simp [hnone] at hr⟩
  | cancelled h =>
    exact ⟨fun r hr _ => h.result hr, fun r _ hlive => by simp [h.isCancelled] at hlive⟩

/-- A call that is cancelled keeps what its requests keep. -/
theorem Follows.kept (h : Follows method c inv ts st) (hcancelled : st.state.isCancelled c = true) :
    inv st.state := by
  cases h with
  | cancelled h => exact h.kept
  | gathered h =>
    cases hresult : ts.result? with
    | none =>
      rw [gathered_of_none hresult]
      exact h.kept
    | some answers =>
      rw [Merge.gathered, hresult] at hcancelled ⊢
      dsimp only [concluded] at hcancelled ⊢
      by_cases hnow : ts.state.isCancelled c = true
      · rw [if_pos hnow]
        exact h.kept
      · rw [if_neg hnow, isCancelled_report] at hcancelled
        exact absurd hcancelled hnow

/-! ## It ends -/

variable {moves : Nat → Move Hub}

/-- What winds down is over when its time is up. -/
theorem draining_ends {β : Type} (hfair : Move.Fair moves) (p : Program β) {n : Nat}
    (hlate : ∀ m, n ≤ m → (st.after moves m).result? = none →
      (st.after moves m).state.hasPassed deadline = true)
    (hrest : ∃ s jobs, (st.after moves n).rest = draining deadline (p.legFrom s jobs).rest) :
    ∃ m, (st.after moves m).result? = some (.error .cancelled) := by
  induction p generalizing n with
  | done b =>
    obtain ⟨s, jobs, hrest⟩ := hrest
    exact ⟨n, by rw [Stage.result?, hrest]; rfl⟩
  | act update next ih =>
    obtain ⟨s, jobs, hrest⟩ := hrest
    exact ih s hlate ⟨_, _, hrest⟩
  | spawn job next ih =>
    obtain ⟨s, jobs, hrest⟩ := hrest
    exact ih hlate ⟨_, _, hrest⟩
  | await ready abandon next ih =>
    obtain ⟨s, jobs, hrest⟩ := hrest
    obtain ⟨m, hm, hgo, hsame, -⟩ :=
      st.exists_turn hfair (fun n => (moves n).preserve_true) (n := n) trivial
    have hwaits : (st.after moves m).rest = draining deadline (await ready abandon next) :=
      hsame.trans hrest
    have hnone : (st.after moves m).result? = none := by rw [Stage.result?, hwaits]; rfl
    have hnext : st.after moves (m + 1) =
        (draining deadline (await ready abandon next)).advance (st.after moves m).state
          (st.after moves m).jobs := by
      rw [Stage.after_succ, hgo, ← hwaits]
      rfl
    rw [advance_draining] at hnext
    by_cases hready : ready (st.after moves m).state = true
    · rw [if_neg (by simp [hready]), advance_await, if_pos hready] at hnext
      exact ih (n := m + 1) (fun k hk => hlate k (by omega)) ⟨_, _, by rw [hnext]⟩
    · rw [if_pos ⟨by simpa using hready, hlate m hm hnone⟩] at hnext
      exact ⟨m + 1, by rw [hnext]; rfl⟩

/-- Whatever the time, it passes before the call ends. -/
def TimePasses (st : Stage Job Hub β) (moves : Nat → Move Hub) : Prop :=
  ∀ deadline, ∃ n, ∀ m, n ≤ m → (st.after moves m).result? = none →
    (st.after moves m).state.hasPassed deadline = true

theorem WindsDown.ends (hfair : Move.Fair moves) (htime : TimePasses st moves)
    (hkeep : ∀ n, (moves n).Preserve (·.isCancelled c = true)) {n : Nat}
    (h : WindsDown c (fun _ => True) deadline (st.after moves n)) :
    ∃ m, (st.after moves m).result? = some (.error .cancelled) := by
  have hstays : ∀ k, WindsDown c (fun _ => True) deadline (st.after moves (n + k)) := by
    intro k
    induction k with
    | zero => exact h
    | succ k ih =>
      rw [← Nat.add_assoc, Stage.after_succ]
      exact ih.step (moves (n + k)).preserve_true (hkeep _)
  obtain ⟨late, hlate⟩ := htime deadline
  obtain ⟨p, hsettled, -, -, hrest⟩ := (hstays late).rest
  refine draining_ends hfair p (fun m hm => hlate m (by omega)) (n := n + late)
    ⟨(st.after moves n).state, [], ?_⟩
  rw [hrest, hsettled.legFrom]

/-- A call that is cancelled ends, and comes to nothing else. -/
theorem Follows.ends (h : Follows method c (fun _ => True) ts st)
    (hcancelled : st.state.isCancelled c = true) (hfair : Move.Fair moves)
    (htime : TimePasses st moves)
    (hkeep : ∀ n, (moves n).Preserve (·.isCancelled c = true)) :
    ∃ m, (st.after moves m).result? = some (.error .cancelled) := by
  cases h with
  | cancelled h => exact h.ends hfair htime hkeep (n := 0)
  | gathered h =>
    cases hresult : ts.result? with
    | some answers =>
      have hdone := result?_gathered_of_some method c hresult
      have hall : Follows method c _ ts (Merge.gathered method c ts) := .gathered h
      exact ⟨0, by rw [Stage.after_zero, hdone, hall.allOrNothing.cancelled _ hdone hcancelled]⟩
    | none =>
      have hnow : ((Merge.gathered method c ts).after moves 0).state.isCancelled c = true :=
        hcancelled
      obtain ⟨m, -, hgo, hsame, hlate⟩ := Stage.exists_turn hfair hkeep hnow
      have hwaits : (Merge.gathered method c ts).rest = gathering method c ts.rest :=
        congrArg Stage.rest (gathered_of_none hresult)
      have hnext : (Merge.gathered method c ts).after moves (m + 1) =
          (drain ts.rest).legFrom ((Merge.gathered method c ts).after moves m).state
            ((Merge.gathered method c ts).after moves m).jobs := by
        rw [Stage.after_succ, hgo, Stage.step, hsame, Stage.after_zero, hwaits,
          advance_gathering h.isSettled hresult, if_pos hlate]
      have hdown := windsDown_draining ts.rest.preserves_true h.stays
        (h := (((Merge.gathered method c ts).after moves m).state.startTimer drainTime).2)
        trivial hlate
      exact WindsDown.ends hfair htime hkeep (n := m + 1)
        (by rw [hnext, legFrom_drain]; exact hdown _ _)

/-- Whatever happens now, as long as its turn and its time come, the call ends as cancelled. -/
def Ends (c : Nat) (st : CallStage α) : Prop :=
  ∀ later : Nat → Move Hub, Move.Fair later →
    (∀ n, (later n).Preserve (·.isCancelled c = true)) → TimePasses st later →
    ∃ n, (st.after later n).result? = some (.error .cancelled)

/-- Its owner's cleanup plays no part in how a call ends. -/
theorem ends_onAbandon (hst : st.rest.IsSettled) (hends : Ends c st) (cleanup : Hub → Hub) :
    Ends c ({ st with rest := st.rest.onAbandon cleanup } : CallStage α) := by
  intro later hfair hkeep htime
  have hafter : ∀ n, ({ st with rest := st.rest.onAbandon cleanup } : CallStage α).after later n =
      { st.after later n with rest := (st.after later n).rest.onAbandon cleanup } := fun n =>
    Stage.run_onAbandon cleanup hst _
  have hresult : ∀ n, (({ st with rest := st.rest.onAbandon cleanup } : CallStage α).after later
      n).result? = (st.after later n).result? := fun n => by
    rw [hafter]
    exact result?_onAbandon _ _
  obtain ⟨n, hn⟩ := hends later hfair hkeep fun deadline => by
    obtain ⟨n, hn⟩ := htime deadline
    refine ⟨n, fun m hm hnone => ?_⟩
    have hpassed := hn m hm (by rw [hresult, hnone])
    rwa [hafter] at hpassed
  exact ⟨n, by rw [hresult, hn]⟩

end Following

/-! ## From the start -/

section Start

variable {inv : Hub → Prop} {requests : List (Program (ServerAnswer α))} {h : Hub}

/-- A call follows its requests from the start. -/
theorem follows_merge (hclock : ∀ h d, inv h → inv (Hub.startTimer d h).2)
    (hrequests : ∀ p ∈ requests, p.Preserves inv)
    (hkeep : ∀ p ∈ requests, p.Preserves (·.isCancelled c = true)) (hinv : inv h) :
    Follows method c inv (Team.ofRoutines requests h []).stage
      (Stage.ofRoutine (merge method c requests) h) := by
  have hall := Preserves.all hrequests
  have hallKeep := Preserves.all hkeep
  rw [Stage.ofRoutine, legFrom_merge]
  split
  · rename_i hcancelled
    rw [legFrom_drain]
    exact .cancelled (windsDown_draining hall hallKeep (hclock h drainTime hinv) hcancelled _ _)
  · refine .gathered ?_
    rw [← legFrom_all]
    exact ⟨hall.kept_legFrom hinv [], isSettled_legFrom _ h [], hall.legFrom h [],
      hallKeep.legFrom h []⟩

/-- A call that has something to ask follows its requests, its owner's cleanup aside. -/
theorem exists_follows (hclock : ∀ h d, inv h → inv (Hub.startTimer d h).2)
    (hsome : requests ≠ []) (hrequests : ∀ p ∈ requests, p.Preserves inv)
    (hkeep : ∀ p ∈ requests, p.Preserves (·.isCancelled c = true)) (hinv : inv h)
    {moves : List (Move Hub)} (hmoves : ∀ move ∈ moves, move.Preserve inv)
    (hkeepMoves : ∀ move ∈ moves, move.Preserve (·.isCancelled c = true)) :
    ∃ ts st, Follows method c inv ts st ∧ st.rest.IsSettled ∧
      (Stage.ofRoutine (call method c requests) h).run moves =
        { st with rest := st.rest.onAbandon (Hub.cancel c) } :=
  ⟨_, _, (follows_merge hclock hrequests hkeep hinv).run hclock hmoves hkeepMoves,
    Stage.isSettled_run (isSettled_legFrom _ h []) moves, run_call hsome h moves⟩

/-- However a call goes, it is all or nothing, and it ends once it is cancelled. -/
theorem allOrNothing_run (method : String) (hsome : requests ≠ [])
    (hrequests : ∀ p ∈ requests, p.Preserves (·.isCancelled c = true)) {moves : List (Move Hub)}
    (hmoves : ∀ move ∈ moves, move.Preserve (·.isCancelled c = true)) :
    AllOrNothing c ((Stage.ofRoutine (call method c requests) h).run moves) ∧
      (((Stage.ofRoutine (call method c requests) h).run moves).state.isCancelled c = true →
        Ends c ((Stage.ofRoutine (call method c requests) h).run moves)) := by
  obtain ⟨ts, st, hfollows, hsettled, hrun⟩ := exists_follows (c := c) (h := h)
    (fun _ _ h => h) hsome (fun p _ => p.preserves_true) hrequests trivial
    (fun move _ => move.preserve_true) hmoves
  rw [hrun]
  refine ⟨⟨fun r hr hcancelled => ?_, fun r hr hlive => ?_⟩, fun hcancelled => ?_⟩
  · exact hfollows.allOrNothing.cancelled r ((result?_onAbandon _ _).symm.trans hr) hcancelled
  · exact hfollows.allOrNothing.whole r ((result?_onAbandon _ _).symm.trans hr) hlive
  · exact ends_onAbandon hsettled
      (fun later hfair hkeep htime => hfollows.ends hcancelled hfair htime hkeep) _

/-- A cancelled call sends nothing by itself. -/
theorem sentOnly_run (hsome : requests ≠ [])
    (hkeep : ∀ p ∈ requests, p.Preserves (·.isCancelled c = true)) {moves : List (Move Hub)}
    (hkeepMoves : ∀ move ∈ moves, move.Preserve (·.isCancelled c = true))
    {kind : EventKind → Prop}
    (hrequests : ∀ p ∈ requests, p.Preserves (SentOnly kind h.events ·.events))
    (hmoves : ∀ move ∈ moves, move.Preserve (SentOnly kind h.events ·.events))
    (hcancelled :
      ((Stage.ofRoutine (call method c requests) h).run moves).state.isCancelled c = true) :
    SentOnly kind h.events
      ((Stage.ofRoutine (call method c requests) h).run moves).state.events := by
  obtain ⟨ts, st, hfollows, -, hrun⟩ := exists_follows (c := c) (h := h)
    (fun _ _ h => h) hsome hrequests hkeep .nothing hmoves hkeepMoves
  rw [hrun] at hcancelled ⊢
  exact hfollows.kept hcancelled

end Start

/-- What requests and the call's bookkeeping keep is kept by the call. -/
theorem preserves_call {inv : Hub → Prop} {requests : List (Program (ServerAnswer α))}
    (hclock : ∀ h d, inv h → inv (Hub.startTimer d h).2)
    (hemit : ∀ (h : Hub) k, inv h → inv (h.emit k)) (hcancel : ∀ h, inv h → inv (h.cancel c))
    (hrequests : ∀ p ∈ requests, p.Preserves inv) : (call method c requests).Preserves inv := by
  have hreport : ∀ failures (h : Hub), inv h → inv (report method failures h) := by
    intro failures
    induction failures with
    | nil => exact fun h hinv => hinv
    | cons f rest ih => exact fun h hinv => ih _ (hemit h _ hinv)
  have hdrain : ∀ p : Program (List (ServerAnswer α)), p.Preserves inv →
      (drain p : Program (Except HubError (Merged α))).Preserves inv := fun p hp =>
    ⟨fun h hinv => hclock h _ hinv, fun h => (hp.giveUpWhen _).bind fun _ => trivial⟩
  have hconclude : ∀ answers : List (ServerAnswer α),
      (conclude method c answers).Preserves inv := by
    refine fun answers => ⟨fun h hinv => hinv, fun h => ?_⟩
    change ((if h.isCancelled c then _ else _ : Program _).Preserves inv)
    split
    · trivial
    · exact ⟨fun h hinv => hreport _ h hinv, fun _ => trivial⟩
  unfold call
  split
  · trivial
  · exact ((Preserves.all hrequests).pauseWhen_bind _ hdrain hconclude).onAbandon hcancel

end LanguageHub.Merge
