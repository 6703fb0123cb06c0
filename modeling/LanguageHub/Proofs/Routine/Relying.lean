import LanguageHub.Proofs.Routine.Leg
import LanguageHub.Proofs.Routine.Schedule

/-!
# Relying on the others

A routine that promises nothing may still rely on the others: while it waits they change the state
only in a certain way. Then what it reaches from where it begins holds once it is done, however
the others and it take turns.

Laws: what the others may do is reflexive and transitive.
-/

namespace LanguageHub

open Routine

variable {Job σ α β : Type} {rely : σ → σ → Prop}

/-- The pact of a routine that promises nothing. -/
abbrev Pact.among (Job : Type) {σ : Type} (rely : σ → σ → Prop) : Pact Job σ where
  World := σ
  state := id
  move _ s := s
  state_move _ _ := rfl
  allows _ _ _ := True
  inv _ := True
  guarantee _ _ := True
  rely := rely
  starts _ _ := True

/-- The others change the state only so. -/
def Move.Follows (rely : σ → σ → Prop) : Move σ → Prop
  | others change => ∀ s, rely s (change s)
  | goOn => True

namespace Pact

variable {P inv : σ → Prop} {Q : α → σ → Prop} {p : Routine Job σ α}

theorem among_sound (m : Moment (among Job rely)) : m.Sound :=
  ⟨trivial, trivial, fun _ _ => trivial⟩

/-- What a routine and the others keep is reached. -/
theorem reaches_of_preserves (hp : p.Preserves inv) (hrely : ∀ s s', rely s s' → inv s → inv s') :
    (among Job rely).Reaches inv p fun _ => inv := by
  induction p with
  | done a => exact fun m hm hinv => ⟨hm, hinv⟩
  | act update next ih =>
    exact fun m _ hinv _ => ih m.state (hp.2 _) (m.set (update m.state)) (among_sound _)
      (hp.1 _ hinv)
  | spawn job next ih => exact fun m _ hinv => ih hp (m.spawned job) (among_sound _) hinv
  | await ready abandon next ih =>
    exact fun m hm hinv => ⟨hm, fun s _ hs => ⟨trivial, fun _ =>
      ih hp.2 (.resume s) (among_sound _) (hrely _ s hs hinv)⟩⟩

/-- What follows the state may depend on how it is at the moment. -/
theorem reaches_get {next : σ → Routine Job σ α}
    (hnext : ∀ s, P s → (among Job rely).Reaches (· = s) (next s) Q) :
    (among Job rely).Reaches P (get >>= next) Q := fun m _ hP _ =>
  hnext m.state hP (m.set m.state) (among_sound _) rfl

theorem reaches_modifyGet {f : σ → α × σ} (h : ∀ s, P s → Q (f s).1 (f s).2) :
    (among Job rely).Reaches P (modifyGet f : Routine Job σ α) Q := fun m _ hP _ =>
  ⟨among_sound _, h m.state hP⟩

theorem reaches_modify {R : σ → Prop} {f : σ → σ} (h : ∀ s, P s → R (f s)) :
    (among Job rely).Reaches P (modify f : Routine Job σ Unit) fun _ => R := fun m _ hP _ =>
  ⟨among_sound _, h m.state hP⟩

/-- A routine that waits goes on with what was kept and what it waited for. -/
theorem reaches_waitUntil {R : σ → Prop} {ready : σ → Bool}
    (hrely : ∀ s s', rely s s' → inv s → inv s') (h : ∀ s, inv s → ready s = true → R s) :
    (among Job rely).Reaches inv (waitUntil ready : Routine Job σ Unit) fun _ => R :=
  fun _ hm hinv => ⟨hm, fun s _ hs => ⟨trivial, fun hready =>
    ⟨among_sound _, h s (hrely _ s hs hinv) hready⟩⟩⟩

/-- What is reached from all such states is reached from any one of them. -/
theorem Reaches.now {s : σ} (hp : (among Job rely).Reaches P p Q) (hs : P s) :
    (among Job rely).Reaches (· = s) p Q :=
  hp.weaken (fun _ heq => heq ▸ hs) fun _ _ => id

theorem Reaches.ensuring {cleanup : σ → σ} (hp : (among Job rely).Reaches P p Q)
    (hcleanup : ∀ a s, Q a s → Q a (cleanup s)) :
    (among Job rely).Reaches P (p.ensuring cleanup) Q := fun m hm hP =>
  keeps_ensuring ((hp m hm hP).mono fun _ a hgoal _ =>
    ⟨among_sound _, hcleanup a _ hgoal.2⟩)

end Pact

namespace Stage

variable {Q : α → σ → Prop} {st : Stage Job σ α}

/-- Where a routine stands that is on its way to what it reaches. -/
def Nears (rely : σ → σ → Prop) (Q : α → σ → Prop) (st : Stage Job σ α) : Prop :=
  match st.rest with
  | .done a => Q a st.state
  | rest => rest.Waits (P := Pact.among Job rely) st.state fun m a => Q a m.now

theorem nears_legFrom {p : Routine Job σ α} {m : Pact.Moment (Pact.among Job rely)}
    (hp : p.Keeps (fun _ _ => True) m fun m a => Q a m.now) (jobs : List Job) :
    Nears rely Q (p.legFrom m.state jobs) := by
  induction p generalizing m jobs with
  | done a => exact hp
  | act update next ih => exact ih m.state (m := m.set (update m.state)) (hp trivial) jobs
  | spawn job next ih => exact ih (m := m.spawned job) hp (jobs ++ [job])
  | await ready abandon next ih =>
    exact fun s hs hrely hready => (hp.2 s hs hrely).2 hready

section Running

variable (hrefl : ∀ s, rely s s)
  (htrans : ∀ {s s' s''}, rely s s' → rely s' s'' → rely s s'')

include hrefl htrans

theorem Nears.step (hst : Nears rely Q st) (hsettled : st.rest.IsSettled) {move : Move σ}
    (hmove : move.Follows rely) : Nears rely Q (st.step move) := by
  obtain ⟨s, jobs, rest⟩ := st
  cases rest with
  | done a =>
    have hdone : (⟨s, jobs, .done a⟩ : Stage Job σ α).result? = some a := rfl
    rw [step_of_result? hdone move]
    exact hst
  | act update next => exact hsettled.elim
  | spawn job next => exact hsettled.elim
  | await ready abandon next =>
    cases move with
    | others change =>
      exact fun s' hs' hrely hready => hst s' hs' (htrans (hmove s) hrely) hready
    | goOn =>
      change Nears rely Q ((Routine.await ready abandon next).advance s jobs)
      rw [advance_await]
      split
      · rename_i hready
        exact nears_legFrom (hst s trivial (hrefl s) hready) jobs
      · exact hst

theorem Nears.run (hst : Nears rely Q st) (hsettled : st.rest.IsSettled)
    {moves : List (Move σ)} (hmoves : ∀ move ∈ moves, move.Follows rely) :
    Nears rely Q (st.run moves) := by
  induction moves generalizing st with
  | nil => exact hst
  | cons move rest ih =>
    rw [List.forall_mem_cons] at hmoves
    exact ih (Nears.step hrefl htrans hst hsettled hmoves.1) (isSettled_step hsettled move)
      hmoves.2

/-- What a routine reaches holds when it is done. -/
theorem reached_of_run {P : σ → Prop} {p : Routine Job σ α}
    (hp : (Pact.among Job rely).Reaches P p Q) {s : σ} (hs : P s) {moves : List (Move σ)}
    (hmoves : ∀ move ∈ moves, move.Follows rely) {a : α}
    (hresult : ((ofRoutine p s).run moves).result? = some a) :
    Q a ((ofRoutine p s).run moves).state := by
  have hkeeps := (hp (.resume s) (Pact.among_sound _) hs).mono fun _ _ hgoal => hgoal.2
  have hnears : Nears rely Q ((ofRoutine p s).run moves) :=
    Nears.run hrefl htrans (nears_legFrom hkeeps []) (isSettled_legFrom p s []) hmoves
  unfold Nears at hnears
  rwa [rest_of_result? hresult] at hnears

end Running

end Stage

end LanguageHub
