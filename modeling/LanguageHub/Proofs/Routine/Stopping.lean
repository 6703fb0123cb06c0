import LanguageHub.Proofs.Routine.Schedule
import LanguageHub.Routine.Combine

/-!
# Routines that stop early

What the routines that may be paused, given up or dropped do in their turns, and that they
keep what the routines keep that they are made of.
-/

namespace LanguageHub

/-- The same stage of a routine that cleans up when it ends. -/
def Stage.ensuring {Job σ α : Type} (cleanup : σ → σ) (st : Stage Job σ α) : Stage Job σ α :=
  match st.rest with
  | .done a => ⟨cleanup st.state, st.jobs, .done a⟩
  | rest => ⟨st.state, st.jobs, rest.ensuring cleanup⟩

namespace Routine

variable {Job σ α β : Type} {p : Routine Job σ α}

/-! ## Pausing -/

theorem legFrom_pauseAt (stop : σ → Bool) (p : Routine Job σ α) (s : σ) (jobs : List Job) :
    (pauseAt stop p).legFrom s jobs =
      ⟨(p.legFrom s jobs).state, (p.legFrom s jobs).jobs,
        pauseAt stop (p.legFrom s jobs).rest⟩ := by
  induction p generalizing s jobs with
  | done a => rfl
  | act update next ih => exact ih _ _ _
  | spawn job next ih => exact ih _ _
  | await ready abandon next ih => rfl

/-- Where it waits, stopping comes before going on. -/
theorem advance_pauseAt (stop : σ → Bool) (ready : σ → Bool) (abandon : σ → σ)
    (next : Routine Job σ α) (s : σ) (jobs : List Job) :
    (pauseAt stop (await ready abandon next)).advance s jobs =
      if stop s then ⟨s, jobs, done (.paused (await ready abandon next))⟩
      else
        ⟨((await ready abandon next).advance s jobs).state,
          ((await ready abandon next).advance s jobs).jobs,
          pauseAt stop ((await ready abandon next).advance s jobs).rest⟩ := by
  by_cases hstop : stop s = true
  · simp [pauseAt, advance_await, hstop]
  · by_cases hready : ready s = true
    · simp [pauseAt, advance_await, hstop, hready, legFrom_pauseAt]
    · simp [pauseAt, advance_await, hstop, hready]

/-! ## Giving up -/

theorem legFrom_giveUpWhen (isLate : σ → Bool) (p : Routine Job σ α) (s : σ) (jobs : List Job) :
    (giveUpWhen isLate p).legFrom s jobs =
      ⟨(p.legFrom s jobs).state, (p.legFrom s jobs).jobs,
        giveUpWhen isLate (p.legFrom s jobs).rest⟩ := by
  induction p generalizing s jobs with
  | done a => rfl
  | act update next ih => exact ih _ _ _
  | spawn job next ih => exact ih _ _
  | await ready abandon next ih => rfl

/-- Where it waits, going on comes before giving up. -/
theorem advance_giveUpWhen (isLate : σ → Bool) (ready : σ → Bool) (abandon : σ → σ)
    (next : Routine Job σ α) (s : σ) (jobs : List Job) :
    (giveUpWhen isLate (await ready abandon next)).advance s jobs =
      if ready s = false ∧ isLate s = true then ⟨abandon s, jobs, done none⟩
      else
        ⟨((await ready abandon next).advance s jobs).state,
          ((await ready abandon next).advance s jobs).jobs,
          giveUpWhen isLate ((await ready abandon next).advance s jobs).rest⟩ := by
  by_cases hready : ready s = true
  · simp [giveUpWhen, advance_await, hready, legFrom_giveUpWhen]
  · by_cases hlate : isLate s = true
    · simp [giveUpWhen, advance_await, hready, hlate]
    · simp [giveUpWhen, advance_await, hready, hlate]

/-! ## Cleaning up -/

theorem legFrom_onAbandon (cleanup : σ → σ) (p : Routine Job σ α) (s : σ) (jobs : List Job) :
    (p.onAbandon cleanup).legFrom s jobs =
      ⟨(p.legFrom s jobs).state, (p.legFrom s jobs).jobs,
        (p.legFrom s jobs).rest.onAbandon cleanup⟩ := by
  induction p generalizing s jobs with
  | done a => rfl
  | act update next ih => exact ih _ _ _
  | spawn job next ih => exact ih _ _
  | await ready abandon next ih => rfl

theorem advance_onAbandon (cleanup : σ → σ) (hp : p.IsSettled) (s : σ) (jobs : List Job) :
    (p.onAbandon cleanup).advance s jobs =
      ⟨(p.advance s jobs).state, (p.advance s jobs).jobs,
        (p.advance s jobs).rest.onAbandon cleanup⟩ := by
  cases p with
  | done a => rfl
  | await ready abandon next =>
    simp only [onAbandon, advance_await, legFrom_onAbandon]
    split <;> rfl
  | act update next => exact hp.elim
  | spawn job next => exact hp.elim

theorem result?_onAbandon (cleanup : σ → σ) (p : Routine Job σ α) :
    (p.onAbandon cleanup).result? = p.result? := by
  cases p <;> rfl

theorem legFrom_ensuring (cleanup : σ → σ) (p : Routine Job σ α) (s : σ) (jobs : List Job) :
    (p.ensuring cleanup).legFrom s jobs = (p.legFrom s jobs).ensuring cleanup := by
  induction p generalizing s jobs with
  | done a => rfl
  | act update next ih => exact ih _ _ _
  | spawn job next ih => exact ih _ _
  | await ready abandon next ih => rfl

theorem advance_ensuring (cleanup : σ → σ) (hp : p.IsSettled) (hwaits : p.result? = none)
    (s : σ) (jobs : List Job) :
    (p.ensuring cleanup).advance s jobs = (p.advance s jobs).ensuring cleanup := by
  cases p with
  | done a => cases hwaits
  | await ready abandon next =>
    simp only [ensuring, advance_await, legFrom_ensuring]
    split <;> rfl
  | act update next => exact hp.elim
  | spawn job next => exact hp.elim

/-! ## What they keep -/

section Keeping

variable {inv : σ → Prop}

theorem Preserves.giveUpWhen (hp : p.Preserves inv) (isLate : σ → Bool) :
    (giveUpWhen isLate p).Preserves inv := by
  induction p with
  | done a => trivial
  | act update next ih => exact ⟨hp.1, fun s => ih s (hp.2 s)⟩
  | spawn job next ih => exact ih hp
  | await ready abandon next ih =>
    refine ⟨hp.1, fun s hs => hs, fun s => ?_⟩
    dsimp only
    split
    · exact ih hp.2
    · exact ⟨hp.1, fun _ => trivial⟩

/-- A routine that may be paused keeps what it and whatever follows keep. -/
theorem Preserves.pauseWhen_bind (hp : p.Preserves inv) (stop : σ → Bool)
    {f : Paused Job σ α → Routine Job σ β}
    (hpaused : ∀ rest, rest.Preserves inv → (f (.paused rest)).Preserves inv)
    (hfinished : ∀ a, (f (.finished a)).Preserves inv) :
    ((pauseWhen stop p).bind f).Preserves inv := by
  have hpause : ∀ p : Routine Job σ α, p.Preserves inv →
      ((pauseAt stop p).bind f).Preserves inv := by
    intro p hp
    induction p with
    | done a => exact hfinished a
    | act update next ih => exact ⟨hp.1, fun s => ih s (hp.2 s)⟩
    | spawn job next ih => exact ih hp
    | await ready abandon next ih =>
      refine ⟨hp.1, fun s hs => hs, fun s => ?_⟩
      dsimp only
      split
      · exact hpaused _ hp
      · exact ih hp.2
  refine ⟨fun s hs => hs, fun s => ?_⟩
  dsimp only
  split
  · exact hpaused p hp
  · exact hpause p hp

theorem Preserves.onAbandon (hp : p.Preserves inv) {cleanup : σ → σ}
    (hcleanup : ∀ s, inv s → inv (cleanup s)) : (p.onAbandon cleanup).Preserves inv := by
  induction p with
  | done a => trivial
  | act update next ih => exact ⟨hp.1, fun s => ih s (hp.2 s)⟩
  | spawn job next ih => exact ih hp
  | await ready abandon next ih => exact ⟨fun s hs => hp.1 _ (hcleanup s hs), ih hp.2⟩

theorem Preserves.ensuring (hp : p.Preserves inv) {cleanup : σ → σ}
    (hcleanup : ∀ s, inv s → inv (cleanup s)) : (p.ensuring cleanup).Preserves inv := by
  induction p with
  | done a => exact ⟨hcleanup, fun _ => trivial⟩
  | act update next ih => exact ⟨hp.1, fun s => ih s (hp.2 s)⟩
  | spawn job next ih => exact ih hp
  | await ready abandon next ih => exact ⟨fun s hs => hcleanup _ (hp.1 s hs), ih hp.2⟩

theorem Preserves.map (hp : p.Preserves inv) (f : α → β) : (p.map f).Preserves inv :=
  hp.bind fun _ => trivial

theorem Preserves.both {q : Routine Job σ β} (hp : p.Preserves inv) (hq : q.Preserves inv) :
    (both p q).Preserves inv := by
  induction p generalizing q with
  | done a => exact hq.map _
  | act update next ih => exact ⟨hp.1, fun s => ih s (hp.2 s) hq⟩
  | spawn job next ih => exact ih hp hq
  | await ready abandon next ih =>
    have hnext : ∀ {q : Routine Job σ β}, q.Preserves inv → (Routine.both next q).Preserves inv :=
      fun hq => ih hp.2 hq
    induction q with
    | done b => exact ⟨hp.1, hp.2.map _⟩
    | act update next ih' => exact ⟨hq.1, fun s => ih' s (hq.2 s)⟩
    | spawn job next ih' => exact ih' hq
    | await ready' abandon' next' ih' =>
      refine ⟨fun s hs => hq.1 _ (hp.1 s hs), fun s hs => hs, fun s => ?_⟩
      dsimp only
      split
      · exact hnext hq
      · exact ih' hq.2

theorem Preserves.all {ps : List (Routine Job σ α)} (hps : ∀ p ∈ ps, p.Preserves inv) :
    (all ps).Preserves inv := by
  induction ps with
  | nil => trivial
  | cons p ps ih =>
    exact ((hps p List.mem_cons_self).both
      (ih fun q hq => hps q (List.mem_cons_of_mem p hq))).map _

end Keeping

end Routine

namespace Stage

open Routine

variable {Job σ α : Type}

/-- A routine that cleans up when it is dropped goes on as the routine does. -/
theorem run_onAbandon (cleanup : σ → σ) {st : Stage Job σ α} (h : st.rest.IsSettled)
    (moves : List (Move σ)) :
    ({ st with rest := st.rest.onAbandon cleanup } : Stage Job σ α).run moves =
      { st.run moves with rest := (st.run moves).rest.onAbandon cleanup } := by
  induction moves generalizing st with
  | nil => rfl
  | cons move rest ih =>
    have hstep : ({ st with rest := st.rest.onAbandon cleanup } : Stage Job σ α).step move =
        { st.step move with rest := (st.step move).rest.onAbandon cleanup } := by
      cases move with
      | others change =>
        by_cases hdone : st.rest.result?.isSome = true <;>
          simp [step, Stage.result?, result?_onAbandon, hdone]
      | goOn => exact advance_onAbandon cleanup h _ _
    change (Stage.step _ move).run rest = _
    rw [hstep]
    exact ih (isSettled_step h move)

end Stage

end LanguageHub

/-!
# What routines leave behind

A routine may be dropped wherever it waits. What it leaves behind then is its cleanup and nothing
else: it does not go on to do what it would have done.

Laws: routines put together leave behind what each of them does, one after the other.
-/

namespace LanguageHub

namespace Routine

variable {Job σ α β : Type} {leaves : σ → σ → Prop} {p : Routine Job σ α}

/-- Wherever the routine is dropped, it changes the state in this way only. -/
def Drops (leaves : σ → σ → Prop) : Routine Job σ α → Prop
  | done _ => True
  | act _ next => ∀ s, (next s).Drops leaves
  | spawn _ next => next.Drops leaves
  | await _ abandon next => (∀ s, leaves s (abandon s)) ∧ next.Drops leaves

/-! ## In a row -/

theorem Drops.bind {f : α → Routine Job σ β} (hp : p.Drops leaves)
    (hf : ∀ a, (f a).Drops leaves) : (p.bind f).Drops leaves := by
  induction p with
  | done a => exact hf a
  | act update next ih => exact fun s => ih s (hp s)
  | spawn job next ih => exact ih hp
  | await ready abandon next ih => exact ⟨hp.1, ih hp.2⟩

theorem Drops.map (hp : p.Drops leaves) (f : α → β) : (p.map f).Drops leaves :=
  hp.bind fun _ => trivial

theorem drops_waitUntil (hrefl : ∀ s, leaves s s) (ready : σ → Bool) :
    (waitUntil ready : Routine Job σ Unit).Drops leaves := ⟨hrefl, trivial⟩

theorem Drops.ensuring (hp : p.Drops leaves) {cleanup : σ → σ}
    (hcleanup : ∀ s, leaves s (cleanup s))
    (htrans : ∀ {s s' s''}, leaves s s' → leaves s' s'' → leaves s s'') :
    (p.ensuring cleanup).Drops leaves := by
  induction p with
  | done a => exact fun _ => trivial
  | act update next ih => exact fun s => ih s (hp s)
  | spawn job next ih => exact ih hp
  | await ready abandon next ih => exact ⟨fun s => htrans (hp.1 s) (hcleanup _), ih hp.2⟩

theorem Drops.giveUpWhen (hp : p.Drops leaves) (isLate : σ → Bool) :
    (giveUpWhen isLate p).Drops leaves := by
  induction p with
  | done a => trivial
  | act update next ih => exact fun s => ih s (hp s)
  | spawn job next ih => exact ih hp
  | await ready abandon next ih =>
    refine ⟨hp.1, fun s => ?_⟩
    dsimp only
    split
    · exact ih hp.2
    · exact fun _ => trivial

/-- What follows a routine that may be paused. -/
theorem Drops.pauseWhen_bind (hp : p.Drops leaves) (stop : σ → Bool)
    {f : Paused Job σ α → Routine Job σ β}
    (hpaused : ∀ rest, rest.Drops leaves → (f (.paused rest)).Drops leaves)
    (hfinished : ∀ a, (f (.finished a)).Drops leaves) :
    ((pauseWhen stop p).bind f).Drops leaves := by
  have hpause : ∀ p : Routine Job σ α, p.Drops leaves → ((pauseAt stop p).bind f).Drops leaves := by
    intro p hp
    induction p with
    | done a => exact hfinished a
    | act update next ih => exact fun s => ih s (hp s)
    | spawn job next ih => exact ih hp
    | await ready abandon next ih =>
      refine ⟨hp.1, fun s => ?_⟩
      dsimp only
      split
      · exact hpaused _ hp
      · exact ih hp.2
  intro s
  dsimp only
  split
  · exact hpaused p hp
  · exact hpause p hp

/-! ## Side by side -/

theorem Drops.both {q : Routine Job σ β} (hp : p.Drops leaves) (hq : q.Drops leaves)
    (htrans : ∀ {s s' s''}, leaves s s' → leaves s' s'' → leaves s s'') :
    (both p q).Drops leaves := by
  induction p generalizing q with
  | done a => exact hq.map _
  | act update next ih => exact fun s => ih s (hp s) hq
  | spawn job next ih => exact ih hp hq
  | await ready abandon next ih =>
    have hnext : ∀ {q : Routine Job σ β}, q.Drops leaves → (Routine.both next q).Drops leaves :=
      fun hq => ih hp.2 hq
    induction q with
    | done b => exact ⟨hp.1, hp.2.map _⟩
    | act update next ih' => exact fun s => ih' s (hq s)
    | spawn job next ih' => exact ih' hq
    | await ready' abandon' next' ih' =>
      refine ⟨fun s => htrans (hp.1 s) (hq.1 _), fun s => ?_⟩
      dsimp only
      split
      · exact hnext hq
      · exact ih' hq.2

theorem Drops.all {ps : List (Routine Job σ α)} (hps : ∀ p ∈ ps, p.Drops leaves)
    (htrans : ∀ {s s' s''}, leaves s s' → leaves s' s'' → leaves s s'') :
    (all ps).Drops leaves := by
  induction ps with
  | nil => trivial
  | cons p ps ih =>
    exact ((hps p List.mem_cons_self).both
      (ih fun q hq => hps q (List.mem_cons_of_mem p hq)) htrans).map _

/-! ## Going on -/

theorem Drops.legFrom (hp : p.Drops leaves) (s : σ) (jobs : List Job) :
    (p.legFrom s jobs).rest.Drops leaves := by
  induction p generalizing s jobs with
  | done a => trivial
  | act update next ih => exact ih s (hp s) _ jobs
  | spawn job next ih => exact ih hp _ _
  | await ready abandon next ih => exact hp

theorem Drops.advance (hp : p.Drops leaves) (s : σ) (jobs : List Job) :
    (p.advance s jobs).rest.Drops leaves := by
  unfold Routine.advance
  split
  · refine Drops.legFrom ?_ s jobs
    cases p with
    | await ready abandon next => exact hp.2
    | _ => exact hp
  · exact hp

end Routine

namespace Stage

variable {Job σ α : Type} {leaves : σ → σ → Prop} {st : Stage Job σ α}

theorem drops_step (h : st.rest.Drops leaves) (move : Move σ) :
    (st.step move).rest.Drops leaves := by
  cases move with
  | others change =>
    simp only [step]
    split <;> exact h
  | goOn => exact h.advance _ _

theorem drops_run (h : st.rest.Drops leaves) (moves : List (Move σ)) :
    (st.run moves).rest.Drops leaves := by
  induction moves generalizing st with
  | nil => exact h
  | cons move rest ih => exact ih (drops_step h move)

end Stage

end LanguageHub
