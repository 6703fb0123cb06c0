import LanguageHub.Proofs.Routine.Leg

/-!
# Schedules

A schedule says what happens around a routine, one thing after the other: the others change
the state, or the routine goes on from where it waits to where it waits next. Every order in
which tasks can take turns is the schedule of each of them. A routine that is done stays as
it was when it ended.

Laws: what every change keeps is kept through every schedule.
-/

namespace LanguageHub

/-- What happens next around a routine. -/
inductive Move (σ : Type) where
  | others (change : σ → σ)
  /-- The routine goes on, if it can. -/
  | goOn

/-- How far a routine has come. -/
structure Stage (Job σ α : Type) where
  state : σ
  jobs : List Job
  rest : Routine Job σ α

namespace Routine

variable {Job σ α β : Type}

/-- It waits and could go on. -/
def canGo : Routine Job σ α → σ → Bool
  | await ready _ _, s => ready s
  | _, _ => false

def result? : Routine Job σ α → Option α
  | done a => some a
  | _ => none

/-- It waits or is done. -/
def IsSettled : Routine Job σ α → Prop
  | done _ => True
  | await _ _ _ => True
  | _ => False

/-- Where the leg comes to that begins here. -/
def legFrom (p : Routine Job σ α) (s : σ) (jobs : List Job) : Stage Job σ α :=
  ⟨(p.leg s jobs).1, (p.leg s jobs).2.1, (p.leg s jobs).2.2⟩

/-- Where it is after its turn, whether or not it could go on. -/
def advance (p : Routine Job σ α) (s : σ) (jobs : List Job) : Stage Job σ α :=
  if p.canGo s then p.resumed.legFrom s jobs else ⟨s, jobs, p⟩

end Routine

/-- The same stage of a routine that is followed by another one. -/
def Stage.andThen {Job σ α β : Type} (st : Stage Job σ α) (f : α → Routine Job σ β) :
    Stage Job σ β :=
  match st.rest with
  | .done a => (f a).legFrom st.state st.jobs
  | rest => ⟨st.state, st.jobs, rest.bind f⟩

namespace Routine

variable {Job σ α β : Type}

@[simp] theorem legFrom_done (a : α) (s : σ) (jobs : List Job) :
    (done a : Routine Job σ α).legFrom s jobs = ⟨s, jobs, done a⟩ := rfl

@[simp] theorem legFrom_act (update : σ → σ) (next : σ → Routine Job σ α) (s : σ)
    (jobs : List Job) : (act update next).legFrom s jobs = (next s).legFrom (update s) jobs := rfl

@[simp] theorem legFrom_spawn (job : Job) (next : Routine Job σ α) (s : σ) (jobs : List Job) :
    (spawn job next).legFrom s jobs = next.legFrom s (jobs ++ [job]) := rfl

@[simp] theorem legFrom_await (ready : σ → Bool) (abandon : σ → σ) (next : Routine Job σ α)
    (s : σ) (jobs : List Job) :
    (await ready abandon next).legFrom s jobs = ⟨s, jobs, await ready abandon next⟩ := rfl

theorem legFrom_get (next : σ → Routine Job σ α) (s : σ) (jobs : List Job) :
    (get >>= next : Routine Job σ α).legFrom s jobs = (next s).legFrom s jobs := rfl

theorem legFrom_modify (f : σ → σ) (next : Unit → Routine Job σ α) (s : σ) (jobs : List Job) :
    (modify f >>= next : Routine Job σ α).legFrom s jobs = (next ()).legFrom (f s) jobs := rfl

@[simp] theorem advance_done (a : α) (s : σ) (jobs : List Job) :
    (done a : Routine Job σ α).advance s jobs = ⟨s, jobs, done a⟩ := rfl

theorem advance_await (ready : σ → Bool) (abandon : σ → σ) (next : Routine Job σ α) (s : σ)
    (jobs : List Job) : (await ready abandon next).advance s jobs =
      if ready s then next.legFrom s jobs else ⟨s, jobs, await ready abandon next⟩ := rfl

theorem isSettled_legFrom (p : Routine Job σ α) (s : σ) (jobs : List Job) :
    (p.legFrom s jobs).rest.IsSettled := by
  induction p generalizing s jobs with
  | done a => trivial
  | act update next ih => exact ih _ _ _
  | spawn job next ih => exact ih _ _
  | await ready abandon next ih => trivial

theorem IsSettled.legFrom {p : Routine Job σ α} (h : p.IsSettled) (s : σ) (jobs : List Job) :
    p.legFrom s jobs = ⟨s, jobs, p⟩ := by
  cases p with
  | done a => rfl
  | await ready abandon next => rfl
  | act update next => exact h.elim
  | spawn job next => exact h.elim

theorem IsSettled.advance {p : Routine Job σ α} (h : p.IsSettled) (s : σ) (jobs : List Job) :
    (p.advance s jobs).rest.IsSettled := by
  unfold Routine.advance
  split
  · exact isSettled_legFrom _ _ _
  · exact h

theorem legFrom_bind (p : Routine Job σ α) (f : α → Routine Job σ β) (s : σ) (jobs : List Job) :
    (p.bind f).legFrom s jobs = (p.legFrom s jobs).andThen f := by
  induction p generalizing s jobs with
  | done a => rfl
  | act update next ih => exact ih _ _ _
  | spawn job next ih => exact ih _ _
  | await ready abandon next ih => rfl

theorem andThen_waiting {p : Routine Job σ α} (hwaits : p.result? = none)
    (f : α → Routine Job σ β) (s : σ) (jobs : List Job) :
    Stage.andThen ⟨s, jobs, p⟩ f = ⟨s, jobs, p.bind f⟩ := by
  cases p with
  | done a => cases hwaits
  | _ => rfl

/-- What follows a routine that still waits comes when that is done. -/
theorem advance_bind {p : Routine Job σ α} (hp : p.IsSettled) (hwaits : p.result? = none)
    (f : α → Routine Job σ β) (s : σ) (jobs : List Job) :
    (p.bind f).advance s jobs = (p.advance s jobs).andThen f := by
  cases p with
  | done a => cases hwaits
  | await ready abandon next =>
    simp only [bind, advance_await]
    split
    · exact legFrom_bind next f s jobs
    · rfl
  | act update next => exact hp.elim
  | spawn job next => exact hp.elim

/-! ## What a routine keeps -/

/-- Every change that the routine may make keeps this, also the one that it leaves behind when
it is dropped. -/
def Preserves (inv : σ → Prop) : Routine Job σ α → Prop
  | done _ => True
  | act update next => (∀ s, inv s → inv (update s)) ∧ ∀ s, (next s).Preserves inv
  | spawn _ next => next.Preserves inv
  | await _ abandon next => (∀ s, inv s → inv (abandon s)) ∧ next.Preserves inv

variable {inv : σ → Prop}

theorem Preserves.bind {p : Routine Job σ α} {f : α → Routine Job σ β} (hp : p.Preserves inv)
    (hf : ∀ a, (f a).Preserves inv) : (p.bind f).Preserves inv := by
  induction p with
  | done a => exact hf a
  | act update next ih => exact ⟨hp.1, fun s => ih s (hp.2 s)⟩
  | spawn job next ih => exact ih hp
  | await ready abandon next ih => exact ⟨hp.1, ih hp.2⟩

theorem preserves_true (p : Routine Job σ α) : p.Preserves fun _ => True := by
  induction p with
  | done a => trivial
  | act update next ih => exact ⟨fun _ _ => trivial, ih⟩
  | spawn job next ih => exact ih
  | await ready abandon next ih => exact ⟨fun _ _ => trivial, ih⟩

theorem Preserves.legFrom {p : Routine Job σ α} (hp : p.Preserves inv) (s : σ)
    (jobs : List Job) : (p.legFrom s jobs).rest.Preserves inv := by
  induction p generalizing s jobs with
  | done a => trivial
  | act update next ih => exact ih s (hp.2 s) _ jobs
  | spawn job next ih => exact ih hp _ _
  | await ready abandon next ih => exact hp

theorem Preserves.kept_legFrom {p : Routine Job σ α} (hp : p.Preserves inv) {s : σ} (hs : inv s)
    (jobs : List Job) : inv (p.legFrom s jobs).state := by
  induction p generalizing s jobs with
  | done a => exact hs
  | act update next ih => exact ih s (hp.2 s) (hp.1 s hs) jobs
  | spawn job next ih => exact ih hp hs _
  | await ready abandon next ih => exact hs

theorem Preserves.resumed {p : Routine Job σ α} (hp : p.Preserves inv) :
    p.resumed.Preserves inv := by
  cases p with
  | await ready abandon next => exact hp.2
  | _ => exact hp

theorem Preserves.advance {p : Routine Job σ α} (hp : p.Preserves inv) (s : σ)
    (jobs : List Job) : (p.advance s jobs).rest.Preserves inv := by
  unfold Routine.advance
  split
  · exact hp.resumed.legFrom s jobs
  · exact hp

theorem Preserves.kept_advance {p : Routine Job σ α} (hp : p.Preserves inv) {s : σ} (hs : inv s)
    (jobs : List Job) : inv (p.advance s jobs).state := by
  unfold Routine.advance
  split
  · exact hp.resumed.kept_legFrom hs jobs
  · exact hs

/-- Every way in which the routine ends gives this. -/
def EndsWith (good : α → Prop) : Routine Job σ α → Prop
  | done a => good a
  | act _ next => ∀ s, (next s).EndsWith good
  | spawn _ next => next.EndsWith good
  | await _ _ next => next.EndsWith good

variable {good : α → Prop}

theorem EndsWith.legFrom {p : Routine Job σ α} (hp : p.EndsWith good) (s : σ) (jobs : List Job) :
    (p.legFrom s jobs).rest.EndsWith good := by
  induction p generalizing s jobs with
  | done a => exact hp
  | act update next ih => exact ih s (hp s) _ jobs
  | spawn job next ih => exact ih hp _ _
  | await ready abandon next ih => exact hp

theorem EndsWith.resumed {p : Routine Job σ α} (hp : p.EndsWith good) :
    p.resumed.EndsWith good := by
  cases p with
  | _ => exact hp

theorem EndsWith.advance {p : Routine Job σ α} (hp : p.EndsWith good) (s : σ) (jobs : List Job) :
    (p.advance s jobs).rest.EndsWith good := by
  unfold Routine.advance
  split
  · exact hp.resumed.legFrom s jobs
  · exact hp

theorem EndsWith.ensuring {p : Routine Job σ α} (hp : p.EndsWith good) (cleanup : σ → σ) :
    (p.ensuring cleanup).EndsWith good := by
  induction p with
  | done a => exact fun _ => hp
  | act update next ih => exact fun s => ih s (hp s)
  | spawn job next ih => exact ih hp
  | await ready abandon next ih => exact ih hp

theorem endsWith_true (p : Routine Job σ α) : p.EndsWith fun _ => True := by
  induction p with
  | done a => trivial
  | act update next ih => exact ih
  | spawn job next ih => exact ih
  | await ready abandon next ih => exact ih

theorem EndsWith.of_result? {p : Routine Job σ α} {a : α} (hp : p.EndsWith good)
    (h : p.result? = some a) : good a := by
  cases p with
  | done b =>
    obtain rfl : b = a := Option.some.inj h
    exact hp
  | _ => cases h

end Routine

/-! ## Running -/

namespace Stage

variable {Job σ α : Type}

/-- A routine that begins. -/
def ofRoutine (p : Routine Job σ α) (s : σ) : Stage Job σ α := p.legFrom s []

def result? (st : Stage Job σ α) : Option α := st.rest.result?

def step (st : Stage Job σ α) : Move σ → Stage Job σ α
  | .others change => if st.result?.isSome then st else { st with state := change st.state }
  | .goOn => st.rest.advance st.state st.jobs

def run (st : Stage Job σ α) (moves : List (Move σ)) : Stage Job σ α := moves.foldl step st

theorem rest_of_result? {st : Stage Job σ α} {a : α} (h : st.result? = some a) :
    st.rest = .done a := by
  unfold result? at h
  cases hrest : st.rest with
  | done b =>
    rw [hrest] at h
    exact congrArg Routine.done (Option.some.inj h)
  | _ => simp [hrest, Routine.result?] at h

/-- What is done stays as it is. -/
theorem step_of_result? {st : Stage Job σ α} {a : α} (h : st.result? = some a)
    (move : Move σ) : st.step move = st := by
  cases move with
  | others change => simp [step, h]
  | goOn =>
    obtain ⟨s, jobs, rest⟩ := st
    obtain rfl : rest = .done a := rest_of_result? h
    rfl

theorem step_others {st : Stage Job σ α} (h : st.result? = none) (change : σ → σ) :
    st.step (.others change) = { st with state := change st.state } := by
  simp [step, h]

theorem isSettled_step {st : Stage Job σ α} (h : st.rest.IsSettled) (move : Move σ) :
    (st.step move).rest.IsSettled := by
  cases move with
  | others change =>
    simp only [step]
    split <;> exact h
  | goOn => exact h.advance _ _

theorem isSettled_run {st : Stage Job σ α} (h : st.rest.IsSettled) (moves : List (Move σ)) :
    (st.run moves).rest.IsSettled := by
  induction moves generalizing st with
  | nil => exact h
  | cons move rest ih => exact ih (isSettled_step h move)

theorem run_append (st : Stage Job σ α) (before after : List (Move σ)) :
    st.run (before ++ after) = (st.run before).run after := List.foldl_append

end Stage

/-- The others keep this on every occasion. -/
def Move.Preserve {σ : Type} (inv : σ → Prop) : Move σ → Prop
  | others change => ∀ s, inv s → inv (change s)
  | goOn => True

theorem Move.preserve_true {σ : Type} (move : Move σ) : move.Preserve fun _ => True := by
  cases move with
  | others change => exact fun _ _ => trivial
  | goOn => trivial

namespace Stage

variable {Job σ α : Type} {inv : σ → Prop} {st : Stage Job σ α}

theorem preserves_step (h : st.rest.Preserves inv) (move : Move σ) :
    (st.step move).rest.Preserves inv := by
  cases move with
  | others change =>
    simp only [step]
    split <;> exact h
  | goOn => exact h.advance _ _

/-- What a routine and the others keep stays so. -/
theorem kept_step (h : st.rest.Preserves inv) (hst : inv st.state) {move : Move σ}
    (hmove : move.Preserve inv) : inv (st.step move).state := by
  cases move with
  | others change =>
    simp only [step]
    split
    · exact hst
    · exact hmove _ hst
  | goOn => exact h.kept_advance hst _

theorem preserves_run (h : st.rest.Preserves inv) (moves : List (Move σ)) :
    (st.run moves).rest.Preserves inv := by
  induction moves generalizing st with
  | nil => exact h
  | cons move rest ih => exact ih (preserves_step h move)

theorem kept_run (h : st.rest.Preserves inv) (hst : inv st.state) {moves : List (Move σ)}
    (hmoves : ∀ move ∈ moves, move.Preserve inv) : inv (st.run moves).state := by
  induction moves generalizing st with
  | nil => exact hst
  | cons move rest ih =>
    rw [List.forall_mem_cons] at hmoves
    exact ih (preserves_step h move) (kept_step h hst hmoves.1) hmoves.2

end Stage

end LanguageHub

/-!
## Endless schedules

A schedule without end is fair when the routine gets its turn again and again. Then a routine
that waits is asked sooner or later whether it can go on.
-/

namespace LanguageHub

/-- The routine gets its turn again and again. -/
def Move.Fair {σ : Type} (moves : Nat → Move σ) : Prop := ∀ n, ∃ m, n ≤ m ∧ moves m = .goOn

namespace Stage

variable {Job σ α : Type} {st : Stage Job σ α} {moves : Nat → Move σ}

/-- How far it is after so many moves. -/
def after (st : Stage Job σ α) (moves : Nat → Move σ) (n : Nat) : Stage Job σ α :=
  st.run ((List.range n).map moves)

@[simp] theorem after_zero : st.after moves 0 = st := rfl

theorem after_succ (n : Nat) : st.after moves (n + 1) = (st.after moves n).step (moves n) := by
  simp [after, List.range_succ, run, List.foldl_append]

/-- Until its next turn comes, only the others change anything. -/
theorem exists_turn_of_goOn {inv : σ → Prop} (hmoves : ∀ n, (moves n).Preserve inv) {n k : Nat}
    (hturn : moves (n + k) = .goOn) (hinv : inv (st.after moves n).state) :
    ∃ m, n ≤ m ∧ moves m = .goOn ∧ (st.after moves m).rest = (st.after moves n).rest ∧
      inv (st.after moves m).state := by
  induction k generalizing n with
  | zero => exact ⟨n, Nat.le_refl n, hturn, rfl, hinv⟩
  | succ k ih =>
    cases hmove : moves n with
    | goOn => exact ⟨n, Nat.le_refl n, hmove, rfl, hinv⟩
    | others change =>
      have hchange := hmoves n
      rw [hmove] at hchange
      have hrest : (st.after moves (n + 1)).rest = (st.after moves n).rest := by
        rw [after_succ, hmove]
        simp only [step]
        split <;> rfl
      have hnext : inv (st.after moves (n + 1)).state := by
        rw [after_succ, hmove]
        simp only [step]
        split
        · exact hinv
        · exact hchange _ hinv
      obtain ⟨m, hm, hgo, hsame, hkept⟩ := ih (by rwa [Nat.add_right_comm]) hnext
      exact ⟨m, Nat.le_of_succ_le hm, hgo, hsame.trans hrest, hkept⟩

/-- A routine in a fair schedule gets its turn where it stands. -/
theorem exists_turn {inv : σ → Prop} (hfair : Move.Fair moves)
    (hmoves : ∀ n, (moves n).Preserve inv) {n : Nat} (hinv : inv (st.after moves n).state) :
    ∃ m, n ≤ m ∧ moves m = .goOn ∧ (st.after moves m).rest = (st.after moves n).rest ∧
      inv (st.after moves m).state := by
  obtain ⟨m, hm, hgo⟩ := hfair n
  obtain ⟨k, rfl⟩ := Nat.exists_eq_add_of_le hm
  exact exists_turn_of_goOn hmoves hgo hinv

end Stage

end LanguageHub
