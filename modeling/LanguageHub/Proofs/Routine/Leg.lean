import LanguageHub.Routine.Combine

/-!
# Routines that keep a pact

Routines that share a state promise each other something: whoever waits leaves the state in
good order, and until it goes on the others change it only in certain ways. What a routine
achieves under such a pact is said of one routine alone, by recursion on it.

Laws: the pact of a sequence is the pact of its parts.
-/

namespace LanguageHub

/-- What one routine promises the others and relies on. A world is the state together with
what only proofs remember. -/
structure Pact (Job σ : Type) where
  World : Type
  state : World → σ
  /-- The world once the routine has brought the state to this. -/
  move : World → σ → World
  state_move : ∀ w s, state (move w s) = s
  /-- The only changes that occur in a turn that began in this world. -/
  allows : World → σ → σ → Prop
  inv : World → Prop
  /-- From where the routine went on to where it waits again. -/
  guarantee : World → World → Prop
  /-- From where the routine waits to where it goes on. -/
  rely : World → World → Prop
  /-- What a job needs that is started. -/
  starts : World → Job → Prop

namespace Pact

variable {Job σ α β γ : Type}

/-- Where a routine is in its turn: the world in which it went on, the world as it is now,
and the jobs that it started in between. -/
structure Moment (P : Pact Job σ) where
  start : P.World
  now : P.World
  jobs : List Job

variable {P : Pact Job σ}

namespace Moment

def state (m : Moment P) : σ := P.state m.now

def set (m : Moment P) (s : σ) : Moment P := { m with now := P.move m.now s }

def spawned (m : Moment P) (job : Job) : Moment P := { m with jobs := m.jobs ++ [job] }

/-- A routine goes on. -/
def resume (w : P.World) : Moment P := ⟨w, w, []⟩

@[simp] theorem state_set (m : Moment P) (s : σ) : (m.set s).state = s := P.state_move _ _

/-- The turn may end here. -/
structure Sound (m : Moment P) : Prop where
  inv : P.inv m.now
  guarantee : P.guarantee m.start m.now
  jobs : ∀ job ∈ m.jobs, P.starts m.now job

end Moment

end Pact

namespace Routine

open Pact

variable {Job σ α β γ : Type} {P : Pact Job σ} {drop : P.World → σ → Prop}

/-- From a moment on the routine keeps the pact and comes to the goal. Dropped where it waits
it leaves `drop` behind. -/
def Keeps (drop : P.World → σ → Prop) :
    Routine Job σ α → Moment P → (Moment P → α → Prop) → Prop
  | done a, m, goal => goal m a
  | act update next, m, goal =>
    P.allows m.start m.state (update m.state) →
      Keeps drop (next m.state) (m.set (update m.state)) goal
  | spawn job next, m, goal => Keeps drop next (m.spawned job) goal
  | await ready abandon next, m, goal =>
    m.Sound ∧ ∀ w, P.inv w → P.rely m.now w →
      drop w (abandon (P.state w)) ∧
        (ready (P.state w) = true → Keeps drop next (.resume w) goal)

/-! ## Laws -/

theorem Keeps.mono {p : Routine Job σ α} {m : Moment P} {goal goal' : Moment P → α → Prop}
    (h : p.Keeps drop m goal) (hgoal : ∀ m a, goal m a → goal' m a) : p.Keeps drop m goal' := by
  induction p generalizing m with
  | done a => exact hgoal _ _ h
  | act update next ih => exact fun hallows => ih _ (h hallows)
  | spawn job next ih => exact ih h
  | await ready abandon next ih =>
    exact ⟨h.1, fun w hinv hrely =>
      ⟨(h.2 w hinv hrely).1, fun hready => ih ((h.2 w hinv hrely).2 hready)⟩⟩

theorem keeps_bind {p : Routine Job σ α} {f : α → Routine Job σ β} {m : Moment P}
    {goal : Moment P → β → Prop} :
    (p.bind f).Keeps drop m goal ↔ p.Keeps drop m fun m a => (f a).Keeps drop m goal := by
  induction p generalizing m with
  | done a => rfl
  | act update next ih => exact imp_congr_right fun _ => ih _
  | spawn job next ih => exact ih
  | await ready abandon next ih =>
    refine and_congr_right fun _ => forall_congr' fun w => forall_congr' fun _ =>
      forall_congr' fun _ => and_congr_right fun _ => forall_congr' fun _ => ih

theorem keeps_ensuring {p : Routine Job σ α} {cleanup : σ → σ} {m : Moment P}
    {goal : Moment P → α → Prop}
    (h : p.Keeps (fun w s => drop w (cleanup s)) m fun m a =>
      P.allows m.start m.state (cleanup m.state) → goal (m.set (cleanup m.state)) a) :
    (p.ensuring cleanup).Keeps drop m goal := by
  induction p generalizing m with
  | done a => exact h
  | act update next ih => exact fun hallows => ih _ (h hallows)
  | spawn job next ih => exact ih h
  | await ready abandon next ih =>
    exact ⟨h.1, fun w hinv hrely =>
      ⟨(h.2 w hinv hrely).1, fun hready => ih ((h.2 w hinv hrely).2 hready)⟩⟩

section Stopping

variable {p : Routine Job σ α} {stop : σ → Bool} {m : Moment P} {goal : Moment P → Option α → Prop}

theorem keeps_pauseAt (hstay : ∀ w, P.inv w → P.move w (P.state w) = w)
    (h : p.Keeps (fun w s => drop w s ∧ goal ((Moment.resume w).set s) none) m
      fun m a => goal m (some a)) :
    (pauseAt stop p).Keeps drop m fun m r =>
      match r with
      | .finished a => goal m (some a)
      | .paused rest => goal (m.set (rest.abandon m.state)) none := by
  induction p generalizing m with
  | done a => exact h
  | act update next ih => exact fun hallows => ih _ (h hallows)
  | spawn job next ih => exact ih h
  | await ready abandon next ih =>
    refine ⟨h.1, fun w hinv hrely => ⟨(h.2 w hinv hrely).1.1, fun hready _ => ?_⟩⟩
    have hsame : (Moment.resume w).set (P.state w) = Moment.resume w := by
      rw [Moment.set, Moment.resume, hstay w hinv]
    change Keeps drop _ ((Moment.resume w).set (P.state w)) _
    rw [hsame]
    dsimp only
    split
    · exact (h.2 w hinv hrely).1.2
    · rename_i hstop
      have hgoes : stop (P.state w) = false := Bool.eq_false_iff.mpr hstop
      exact ih ((h.2 w hinv hrely).2 (by simpa [hgoes] using hready))

/-- A routine that may be stopped achieves its goal, or is dropped where it waits. -/
theorem keeps_untilStopped (hstay : ∀ w, P.inv w → P.move w (P.state w) = w)
    (hstop : goal ((m.set m.state).set (p.abandon m.state)) none)
    (h : p.Keeps (fun w s => drop w s ∧ goal ((Moment.resume w).set s) none) (m.set m.state)
      fun m a => goal m (some a)) :
    (p.untilStopped stop).Keeps drop m goal := by
  refine keeps_bind.mpr fun _ => ?_
  change Keeps drop _ (m.set m.state) _
  dsimp only
  split
  · intro _
    change goal ((m.set m.state).set (p.abandon (m.set m.state).state)) none
    rwa [Moment.state_set]
  · refine (keeps_pauseAt hstay h).mono ?_
    rintro m (a | rest) hgoal
    · exact hgoal
    · exact fun _ => hgoal

end Stopping

end Routine

end LanguageHub

/-!
# Legs of a routine

A routine goes on in legs, each from one wait to the next. Between two legs others may go
on, whether or not the routine could. A machine on which any task that is ready may make the
next leg has every order of the tasks among its runs.
-/

namespace LanguageHub

namespace Routine

open Pact

variable {Job σ α : Type}

/-- What follows the wait at which a routine stands. -/
def resumed : Routine Job σ α → Routine Job σ α
  | await _ _ next => next
  | p => p

/-- Runs up to the next wait; the jobs it started come with it. -/
def leg : Routine Job σ α → σ → List Job → σ × List Job × Routine Job σ α
  | done a, s, jobs => (s, jobs, done a)
  | act update next, s, jobs => (next s).leg (update s) jobs
  | spawn job next, s, jobs => next.leg s (jobs ++ [job])
  | await ready abandon next, s, jobs => (s, jobs, await ready abandon next)

/-- Every change up to the next wait is one of these. -/
def Passes (allows : σ → σ → Prop) : Routine Job σ α → σ → Prop
  | act update next, s => allows s (update s) ∧ (next s).Passes allows (update s)
  | spawn _ next, s => next.Passes allows s
  | _, _ => True

def decidablePasses (allows : σ → σ → Prop) [∀ s s', Decidable (allows s s')] :
    ∀ (p : Routine Job σ α) (s : σ), Decidable (p.Passes allows s)
  | act update next, s =>
    letI := decidablePasses allows (next s) (update s)
    inferInstanceAs (Decidable (_ ∧ _))
  | spawn _ next, s => decidablePasses allows next s
  | done _, _ | await .., _ => .isTrue trivial

instance (allows : σ → σ → Prop) [∀ s s', Decidable (allows s s')] (p : Routine Job σ α) (s : σ) :
    Decidable (p.Passes allows s) := decidablePasses allows p s

theorem Passes.mono {allows allows' : σ → σ → Prop} {p : Routine Job σ α} {s : σ}
    (h : p.Passes allows s) (hallows : ∀ s s', allows s s' → allows' s s') :
    p.Passes allows' s := by
  induction p generalizing s with
  | done a => trivial
  | act update next ih => exact ⟨hallows _ _ h.1, ih _ h.2⟩
  | spawn job next ih => exact ih h
  | await ready abandon next ih => trivial

theorem passes_of_forall {allows : σ → σ → Prop} (h : ∀ s s', allows s s')
    (p : Routine Job σ α) (s : σ) : p.Passes allows s := by
  induction p generalizing s with
  | done a => trivial
  | act update next ih => exact ⟨h _ _, ih _ _⟩
  | spawn job next ih => exact ih s
  | await ready abandon next ih => trivial

variable {P : Pact Job σ}

/-- The routine is at a wait, or about to begin, and keeps the pact whatever the others do
before it goes on. -/
def Waits (p : Routine Job σ α) (w : P.World) (goal : Moment P → α → Prop) : Prop :=
  ∀ w', P.inv w' → P.rely w w' → p.isReady (P.state w') = true →
    p.resumed.Keeps (fun _ _ => True) (.resume w') goal

theorem Waits.mono {p : Routine Job σ α} {w : P.World} {goal goal' : Moment P → α → Prop}
    (h : p.Waits w goal) (hgoal : ∀ m a, goal m a → goal' m a) : p.Waits w goal' :=
  fun v hv hrely hready => (h v hv hrely hready).mono hgoal

/-- A routine that keeps its pact from anywhere on may begin. -/
theorem waits_of_keeps {p : Routine Job σ α} {w : P.World} {goal : Moment P → α → Prop}
    (hrefl : ∀ v, P.rely v v)
    (h : ∀ v, P.inv v → P.rely w v → p.Keeps (fun _ _ => True) (.resume v) goal) :
    p.Waits w goal := by
  intro v hv hrely hready
  cases p with
  | await ready abandon next => exact ((h v hv hrely).2 v hv (hrefl v)).2 hready
  | _ => exact h v hv hrely

/-- A leg ends soundly at a wait, or with the goal. -/
theorem Keeps.leg {p : Routine Job σ α} {m : Moment P} {goal : Moment P → α → Prop}
    (h : p.Keeps (fun _ _ => True) m goal) (hpass : p.Passes (P.allows m.start) m.state) :
    ∃ m' : Moment P, m'.start = m.start ∧ m'.state = (p.leg m.state m.jobs).1 ∧
      m'.jobs = (p.leg m.state m.jobs).2.1 ∧
      match (p.leg m.state m.jobs).2.2 with
      | done a => goal m' a
      | rest => m'.Sound ∧ rest.Waits m'.now goal := by
  induction p generalizing m with
  | done a => exact ⟨m, rfl, rfl, rfl, h⟩
  | act update next ih =>
    have hset : (m.set (update m.state)).state = update m.state := Moment.state_set _ _
    obtain ⟨m', hstart, hstate, hjobs, hrest⟩ := ih _ (h hpass.1) (by rw [hset]; exact hpass.2)
    rw [hset] at hstate hjobs hrest
    exact ⟨m', hstart, hstate, hjobs, hrest⟩
  | spawn job next ih => exact ih (m := m.spawned job) h hpass
  | await ready abandon next ih =>
    exact ⟨m, rfl, rfl, rfl, h.1, fun w hinv hrely hready => (h.2 w hinv hrely).2 hready⟩

/-- What every soundly ended leg has kept of all its changes holds of each of them. -/
theorem Keeps.passes {p : Routine Job σ α} {m : Moment P} {goal : Moment P → α → Prop}
    {good : P.World → Prop} {lawful : σ → σ → Prop} (h : p.Keeps (fun _ _ => True) m goal)
    (hallows : ∀ w s s', P.allows w s s')
    (hmove : ∀ w s, good (P.move w s) → good w ∧ lawful (P.state w) s)
    (hinv : ∀ w, P.inv w → good w) (hgoal : ∀ m a, goal m a → good m.now) :
    good m.now ∧ p.Passes lawful m.state := by
  induction p generalizing m with
  | done a => exact ⟨hgoal m a h, trivial⟩
  | act update next ih =>
    obtain ⟨hgood, hpasses⟩ := ih _ (h (hallows _ _ _))
    obtain ⟨hbefore, hlawful⟩ := hmove _ _ hgood
    rw [Moment.state_set] at hpasses
    exact ⟨hbefore, hlawful, hpasses⟩
  | spawn job next ih => exact ih (m := m.spawned job) h
  | await ready abandon next ih => exact ⟨hinv _ h.1.inv, trivial⟩

end Routine

end LanguageHub

/-!
## What routines reach under a pact

A routine reaches what holds once it is done, from wherever something held before, and keeps its
pact on the way.

Laws: what is reached composes as routines do.
-/

namespace LanguageHub

open Routine Pact

variable {Job σ α β : Type} {P : Pact Job σ}

/-- From `pre` on the routine comes to `post` and keeps the pact on the way. -/
def Pact.Reaches (P : Pact Job σ) (pre : P.World → Prop) (p : Routine Job σ α)
    (post : α → P.World → Prop) : Prop :=
  ∀ m : Moment P, m.Sound → pre m.now →
    p.Keeps (fun _ _ => True) m fun m' a => m'.Sound ∧ post a m'.now

namespace Pact

variable {pre pre' : P.World → Prop} {post post' : α → P.World → Prop} {p : Routine Job σ α}

theorem Reaches.weaken (h : P.Reaches pre p post) (hpre : ∀ w, pre' w → pre w)
    (hpost : ∀ a w, post a w → post' a w) : P.Reaches pre' p post' := fun m hm hpre' =>
  (h m hm (hpre _ hpre')).mono fun _ a hgoal => ⟨hgoal.1, hpost a _ hgoal.2⟩

theorem Reaches.pure (a : α) (h : ∀ w, pre w → post a w) :
    P.Reaches pre (pure a : Routine Job σ α) post := fun _ hm hpre => ⟨hm, h _ hpre⟩

theorem Reaches.bind {f : α → Routine Job σ β} {last : β → P.World → Prop}
    (hp : P.Reaches pre p post) (hf : ∀ a, P.Reaches (post a) (f a) last) :
    P.Reaches pre (p >>= f) last := fun m hm hpre =>
  keeps_bind.mpr ((hp m hm hpre).mono fun m' a hgoal => hf a m' hgoal.1 hgoal.2)

/-- A routine that reaches something from wherever it may begin can begin. -/
theorem Reaches.waits {w : P.World} {goal : Moment P → α → Prop} (h : P.Reaches pre p post)
    (hrefl : ∀ v, P.rely v v)
    (hpre : ∀ v, P.inv v → P.rely w v → (Moment.resume v : Moment P).Sound ∧ pre v)
    (hgoal : ∀ m a, m.Sound → post a m.now → goal m a) : p.Waits w goal :=
  waits_of_keeps hrefl fun v hv hrely =>
    (h (.resume v) (hpre v hv hrely).1 (hpre v hv hrely).2).mono fun m a hend =>
      hgoal m a hend.1 hend.2

end Pact

end LanguageHub
