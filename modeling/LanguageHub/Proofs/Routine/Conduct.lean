import LanguageHub.Proofs.Routine.Company
import LanguageHub.Routine.Combine

/-!
# The conduct of routines

What all changes that a routine makes have in common, and which jobs it starts. If the tasks of a
machine conduct themselves in one way, and so do the jobs that they start, the state only moves
that way, in whatever order the tasks go on.

Laws: the changes compose.
-/

namespace LanguageHub

namespace Routine

variable {Job σ α β : Type} {moves moves' : σ → σ → Prop} {starts : Job → Prop}

/-- Every change that the routine may make is one of these, also the one that it leaves behind
when it is dropped, and it starts only such jobs. -/
def Conducts (moves : σ → σ → Prop) (starts : Job → Prop) : Routine Job σ α → Prop
  | done _ => True
  | act update next => (∀ s, moves s (update s)) ∧ ∀ s, (next s).Conducts moves starts
  | spawn job next => starts job ∧ next.Conducts moves starts
  | await _ abandon next => (∀ s, moves s (abandon s)) ∧ next.Conducts moves starts

variable {p : Routine Job σ α}

theorem Conducts.bind {f : α → Routine Job σ β} (hp : p.Conducts moves starts)
    (hf : ∀ a, (f a).Conducts moves starts) : (p.bind f).Conducts moves starts := by
  induction p with
  | done a => exact hf a
  | act update next ih => exact ⟨hp.1, fun s => ih s (hp.2 s)⟩
  | spawn job next ih => exact ⟨hp.1, ih hp.2⟩
  | await ready abandon next ih => exact ⟨hp.1, ih hp.2⟩

theorem Conducts.mono {starts' : Job → Prop} (hp : p.Conducts moves starts)
    (hmoves : ∀ s s', moves s s' → moves' s s') (hstarts : ∀ job, starts job → starts' job) :
    p.Conducts moves' starts' := by
  induction p with
  | done a => trivial
  | act update next ih => exact ⟨fun s => hmoves _ _ (hp.1 s), fun s => ih s (hp.2 s)⟩
  | spawn job next ih => exact ⟨hstarts job hp.1, ih hp.2⟩
  | await ready abandon next ih => exact ⟨fun s => hmoves _ _ (hp.1 s), ih hp.2⟩

theorem Conducts.ensuring (hp : p.Conducts moves starts) {cleanup : σ → σ}
    (hcleanup : ∀ s, moves s (cleanup s))
    (htrans : ∀ {s s' s''}, moves s s' → moves s' s'' → moves s s'') :
    (p.ensuring cleanup).Conducts moves starts := by
  induction p with
  | done a => exact ⟨hcleanup, fun _ => trivial⟩
  | act update next ih => exact ⟨hp.1, fun s => ih s (hp.2 s)⟩
  | spawn job next ih => exact ⟨hp.1, ih hp.2⟩
  | await ready abandon next ih => exact ⟨fun s => htrans (hp.1 s) (hcleanup _), ih hp.2⟩

theorem Conducts.map (hp : p.Conducts moves starts) (f : α → β) :
    (p.map f).Conducts moves starts :=
  hp.bind fun _ => trivial

theorem Conducts.onAbandon (hp : p.Conducts moves starts) {cleanup : σ → σ}
    (hcleanup : ∀ s, moves s (cleanup s))
    (htrans : ∀ {s s' s''}, moves s s' → moves s' s'' → moves s s'') :
    (p.onAbandon cleanup).Conducts moves starts := by
  induction p with
  | done a => trivial
  | act update next ih => exact ⟨hp.1, fun s => ih s (hp.2 s)⟩
  | spawn job next ih => exact ⟨hp.1, ih hp.2⟩
  | await ready abandon next ih => exact ⟨fun s => htrans (hcleanup s) (hp.1 _), ih hp.2⟩

theorem conducts_abandon (hp : p.Conducts moves starts) (hrefl : ∀ s, moves s s) (s : σ) :
    moves s (p.abandon s) := by
  cases p with
  | await ready abandon next => exact hp.1 s
  | _ => exact hrefl s

/-! ### Stopping early -/

section Stopping

variable (hrefl : ∀ s, moves s s)

include hrefl

theorem Conducts.giveUpWhen (hp : p.Conducts moves starts) (isLate : σ → Bool) :
    (giveUpWhen isLate p).Conducts moves starts := by
  induction p with
  | done a => trivial
  | act update next ih => exact ⟨hp.1, fun s => ih s (hp.2 s)⟩
  | spawn job next ih => exact ⟨hp.1, ih hp.2⟩
  | await ready abandon next ih =>
    refine ⟨hp.1, hrefl, fun s => ?_⟩
    dsimp only
    split
    · exact ih hp.2
    · exact ⟨hp.1, fun _ => trivial⟩

/-- What follows a routine that may be paused. -/
theorem Conducts.pauseWhen_bind (hp : p.Conducts moves starts) (stop : σ → Bool)
    {f : Paused Job σ α → Routine Job σ β}
    (hpaused : ∀ rest, rest.Conducts moves starts → (f (.paused rest)).Conducts moves starts)
    (hfinished : ∀ a, (f (.finished a)).Conducts moves starts) :
    ((pauseWhen stop p).bind f).Conducts moves starts := by
  have hpause : ∀ p : Routine Job σ α, p.Conducts moves starts →
      ((pauseAt stop p).bind f).Conducts moves starts := by
    intro p hp
    induction p with
    | done a => exact hfinished a
    | act update next ih => exact ⟨hp.1, fun s => ih s (hp.2 s)⟩
    | spawn job next ih => exact ⟨hp.1, ih hp.2⟩
    | await ready abandon next ih =>
      refine ⟨hp.1, hrefl, fun s => ?_⟩
      dsimp only
      split
      · exact hpaused _ hp
      · exact ih hp.2
  refine ⟨hrefl, fun s => ?_⟩
  dsimp only
  split
  · exact hpaused p hp
  · exact hpause p hp

theorem Conducts.untilStopped (hp : p.Conducts moves starts) (stop : σ → Bool) :
    (p.untilStopped stop).Conducts moves starts :=
  hp.pauseWhen_bind hrefl stop
    (fun _ hrest => ⟨conducts_abandon hrest hrefl, fun _ => trivial⟩) fun _ => trivial

end Stopping

/-! ### Several routines -/

theorem conducts_inOrder {ps : List (Routine Job σ α)} (hps : ∀ p ∈ ps, p.Conducts moves starts) :
    (inOrder ps).Conducts moves starts := by
  induction ps with
  | nil => trivial
  | cons p ps ih =>
    rw [List.forall_mem_cons] at hps
    exact hps.1.bind fun _ => (ih hps.2).map _

theorem conducts_untilFailure {ε : Type} {ps : List (Routine Job σ (Except ε Unit))}
    (hps : ∀ p ∈ ps, p.Conducts moves starts) : (untilFailure ps).Conducts moves starts := by
  induction ps with
  | nil => trivial
  | cons p ps ih =>
    rw [List.forall_mem_cons] at hps
    refine hps.1.bind fun r => ?_
    cases r with
    | ok _ => exact ih hps.2
    | error e => trivial

section Together

variable (hrefl : ∀ s, moves s s)
  (htrans : ∀ {s s' s''}, moves s s' → moves s' s'' → moves s s'')

include hrefl htrans

theorem Conducts.both {q : Routine Job σ β} (hp : p.Conducts moves starts)
    (hq : q.Conducts moves starts) : (both p q).Conducts moves starts := by
  induction p generalizing q with
  | done a => exact hq.map _
  | act update next ih => exact ⟨hp.1, fun s => ih s (hp.2 s) hq⟩
  | spawn job next ih => exact ⟨hp.1, ih hp.2 hq⟩
  | await ready abandon next ih =>
    have hnext : ∀ {q : Routine Job σ β}, q.Conducts moves starts →
        (Routine.both next q).Conducts moves starts := fun hq => ih hp.2 hq
    induction q with
    | done b => exact ⟨hp.1, hp.2.map _⟩
    | act update next ih' => exact ⟨hq.1, fun s => ih' s (hq.2 s)⟩
    | spawn job next ih' => exact ⟨hq.1, ih' hq.2⟩
    | await ready' abandon' next' ih' =>
      refine ⟨fun s => htrans (hp.1 s) (hq.1 _), hrefl, fun s => ?_⟩
      dsimp only
      split
      · exact hnext hq
      · exact ih' hq.2

theorem conducts_all {ps : List (Routine Job σ α)} (hps : ∀ p ∈ ps, p.Conducts moves starts) :
    (all ps).Conducts moves starts := by
  induction ps with
  | nil => trivial
  | cons p ps ih =>
    rw [List.forall_mem_cons] at hps
    exact (hps.1.both hrefl htrans (ih hps.2)).map _

end Together

/-! ### Going on -/

theorem Conducts.resumed (hp : p.Conducts moves starts) : p.resumed.Conducts moves starts := by
  cases p with
  | await ready abandon next => exact hp.2
  | _ => exact hp

theorem Conducts.legFrom (hp : p.Conducts moves starts) (s : σ) (jobs : List Job) :
    (p.legFrom s jobs).rest.Conducts moves starts := by
  induction p generalizing s jobs with
  | done a => trivial
  | act update next ih => exact ih s (hp.2 s) _ jobs
  | spawn job next ih => exact ih hp.2 _ _
  | await ready abandon next ih => exact hp

theorem Conducts.jobs (hp : p.Conducts moves starts) (s : σ) {jobs : List Job}
    (hjobs : ∀ job ∈ jobs, starts job) : ∀ job ∈ (p.legFrom s jobs).jobs, starts job := by
  induction p generalizing s jobs with
  | done a => exact hjobs
  | act update next ih => exact ih s (hp.2 s) _ hjobs
  | spawn job next ih =>
    exact ih hp.2 _ (List.forall_mem_append.mpr ⟨hjobs, by simpa using hp.1⟩)
  | await ready abandon next ih => exact hjobs

theorem Conducts.preserves (hp : p.Conducts moves starts) {inv : σ → Prop}
    (hinv : ∀ s s', moves s s' → inv s → inv s') : p.Preserves inv := by
  induction p with
  | done a => trivial
  | act update next ih => exact ⟨fun s => hinv _ _ (hp.1 s), fun s => ih s (hp.2 s)⟩
  | spawn job next ih => exact ih hp.2
  | await ready abandon next ih => exact ⟨fun s => hinv _ _ (hp.1 s), ih hp.2⟩

theorem endsWith_bind {good : β → Prop} {f : α → Routine Job σ β}
    (hf : ∀ a, (f a).EndsWith good) : (p.bind f).EndsWith good := by
  induction p with
  | done a => exact hf a
  | act update next ih => exact ih
  | spawn job next ih => exact ih
  | await ready abandon next ih => exact ih

theorem EndsWith.mono {good good' : α → Prop} (hp : p.EndsWith good)
    (himp : ∀ a, good a → good' a) : p.EndsWith good' := by
  induction p with
  | done a => exact himp a hp
  | act update next ih => exact fun s => ih s (hp s)
  | spawn job next ih => exact ih hp
  | await ready abandon next ih => exact ih hp

/-- A task conducts itself so, and what it goes on as may be started. -/
structure IsConducted (moves : σ → σ → Prop) (starts : Job → Prop)
    (p : Routine Job σ (Option Job)) : Prop where
  conducts : p.Conducts moves starts
  ends : p.EndsWith fun r => ∀ job, r = some job → starts job

theorem IsConducted.mono {p : Routine Job σ (Option Job)} {starts' : Job → Prop}
    (hp : p.IsConducted moves starts) (hmoves : ∀ s s', moves s s' → moves' s s')
    (hstarts : ∀ job, starts job → starts' job) : p.IsConducted moves' starts' :=
  ⟨hp.conducts.mono hmoves hstarts,
    hp.ends.mono fun _ hgood job hjob => hstarts job (hgood job hjob)⟩

theorem IsConducted.legFrom {p : Routine Job σ (Option Job)} (hp : p.IsConducted moves starts)
    (s : σ) (jobs : List Job) : (p.legFrom s jobs).rest.IsConducted moves starts :=
  ⟨hp.conducts.legFrom s jobs, hp.ends.legFrom s jobs⟩

theorem IsConducted.resumed {p : Routine Job σ (Option Job)} (hp : p.IsConducted moves starts) :
    p.resumed.IsConducted moves starts :=
  ⟨hp.conducts.resumed, hp.ends.resumed⟩

end Routine

namespace Machine

open Routine

variable {Job σ : Type} {moves : σ → σ → Prop} {starts : Job → Prop}
  {program : Job → Routine Job σ (Option Job)} {m : Machine Job σ}

/-- All tasks conduct themselves so. -/
def IsConducted (moves : σ → σ → Prop) (starts : Job → Prop) (m : Machine Job σ) : Prop :=
  ∀ t ∈ m.tasks, t.rest.IsConducted moves starts

theorem IsConducted.start (hm : m.IsConducted moves starts) {job : Job}
    (hjob : (program job).IsConducted moves starts) :
    (m.start program job).IsConducted moves starts := by
  intro t ht
  rcases List.mem_append.mp ht with hold | hnew
  · exact hm t hold
  · rw [List.mem_singleton.mp hnew]
    exact hjob

theorem state_startAll (jobs : List Job) :
    (jobs.foldl (Machine.start program) m).state = m.state := by
  induction jobs generalizing m with
  | nil => rfl
  | cons job rest ih => exact ih

theorem state_advance {i : Nat} {t : RunningTask Job σ} (ht : m.tasks[i]? = some t)
    (hready : t.rest.isReady m.state = true) :
    (m.advance program i).state = (t.rest.resumed.legFrom m.state []).state := by
  rw [advance_of_ready ht hready, state_startAll]

section Programs

variable (hprogram : ∀ job, starts job → (program job).IsConducted moves starts)

include hprogram

theorem IsConducted.startAll (hm : m.IsConducted moves starts) {jobs : List Job}
    (hjobs : ∀ job ∈ jobs, starts job) :
    (jobs.foldl (Machine.start program) m).IsConducted moves starts := by
  induction jobs generalizing m with
  | nil => exact hm
  | cons job rest ih =>
    rw [List.forall_mem_cons] at hjobs
    exact ih (hm.start (hprogram job hjobs.1)) hjobs.2

theorem IsConducted.following {id : Nat} {p : Routine Job σ (Option Job)}
    (hp : p.IsConducted moves starts) :
    ∀ t ∈ following program id p, t.rest.IsConducted moves starts := by
  intro t ht
  unfold Machine.following at ht
  split at ht
  · cases ht
  · rw [List.mem_singleton.mp ht]
    exact hprogram _ (hp.ends _ rfl)
  · rw [List.mem_singleton.mp ht]
    exact hp

/-- After a leg of any task all of them still conduct themselves so. -/
theorem IsConducted.advance (hm : m.IsConducted moves starts) (i : Nat) :
    (m.advance program i).IsConducted moves starts := by
  cases ht : m.tasks[i]? with
  | none => rwa [advance_of_none ht]
  | some t =>
    by_cases hready : t.rest.isReady m.state = true
    · have hrest := (hm t (List.mem_of_getElem? ht)).resumed
      rw [advance_of_ready ht hready]
      refine IsConducted.startAll hprogram (fun t' ht' => ?_) (hrest.conducts.jobs m.state nofun)
      rcases List.mem_append.mp ht' with hold | hnew
      · exact hm t' (List.mem_of_mem_eraseIdx hold)
      · exact IsConducted.following hprogram (hrest.legFrom m.state []) t' hnew
    · rwa [advance_of_not_ready ht hready]

end Programs

/-- A leg of any task moves the state in this way. -/
theorem IsConducted.moves_advance (hm : m.IsConducted moves starts) (hrefl : ∀ s, moves s s)
    (htrans : ∀ {s s' s''}, moves s s' → moves s' s'' → moves s s'') (i : Nat) :
    moves m.state (m.advance program i).state := by
  cases ht : m.tasks[i]? with
  | none =>
    rw [advance_of_none ht]
    exact hrefl _
  | some t =>
    by_cases hready : t.rest.isReady m.state = true
    · have hrest := (hm t (List.mem_of_getElem? ht)).resumed.conducts
      have hkeeps : t.rest.resumed.Preserves (moves m.state) :=
        hrest.preserves fun _ _ hmove hsofar => htrans hsofar hmove
      rw [state_advance ht hready]
      exact hkeeps.kept_legFrom (hrefl _) []
    · rw [advance_of_not_ready ht hready]
      exact hrefl _

end Machine

end LanguageHub
