import LanguageHub.Proofs.Routine.Schedule
import LanguageHub.Routine.Combine
import Mathlib.Data.List.Forall2

/-!
# Routines side by side

Routines that run side by side are a team: whenever it is the team's turn, the first member
that can go on does. `Routine.all` is a team in one routine. Hence the results that it comes
to are those of the members, each at its place, in whatever order they ended.
-/

namespace LanguageHub

/-- How far the routines of a team have come. -/
structure Team (Job σ α : Type) where
  state : σ
  jobs : List Job
  members : List (Routine Job σ α)

namespace Team

variable {Job σ α : Type}

/-- All members begin, one after the other. -/
def ofRoutines : List (Routine Job σ α) → σ → List Job → Team Job σ α
  | [], s, jobs => ⟨s, jobs, []⟩
  | p :: ps, s, jobs =>
    let st := p.legFrom s jobs
    let others := ofRoutines ps st.state st.jobs
    ⟨others.state, others.jobs, st.rest :: others.members⟩

/-- The first of the routines that can go on does. -/
def advance : List (Routine Job σ α) → σ → List Job → Team Job σ α
  | [], s, jobs => ⟨s, jobs, []⟩
  | p :: ps, s, jobs =>
    if p.canGo s then
      let st := p.advance s jobs
      ⟨st.state, st.jobs, st.rest :: ps⟩
    else
      let others := advance ps s jobs
      ⟨others.state, others.jobs, p :: others.members⟩

/-- The results of the members, once all are done. -/
def results? (t : Team Job σ α) : Option (List α) := t.members.mapM Routine.result?

def step (t : Team Job σ α) : Move σ → Team Job σ α
  | .others change => if t.results?.isSome then t else { t with state := change t.state }
  | .goOn => advance t.members t.state t.jobs

def run (t : Team Job σ α) (moves : List (Move σ)) : Team Job σ α := moves.foldl step t

/-- The team as one routine. -/
def stage (t : Team Job σ α) : Stage Job σ (List α) := ⟨t.state, t.jobs, .all t.members⟩

/-- All members wait or are done. -/
def IsSettled (t : Team Job σ α) : Prop := ∀ p ∈ t.members, p.IsSettled

end Team

namespace Routine

variable {Job σ α β : Type}

/-! ## Two routines -/

theorem legFrom_map (p : Routine Job σ α) (f : α → β) (s : σ) (jobs : List Job) :
    (p.map f).legFrom s jobs =
      ⟨(p.legFrom s jobs).state, (p.legFrom s jobs).jobs, (p.legFrom s jobs).rest.map f⟩ := by
  induction p generalizing s jobs with
  | done a => rfl
  | act update next ih => exact ih _ _ _
  | spawn job next ih => exact ih _ _
  | await ready abandon next ih => rfl

theorem advance_map {p : Routine Job σ α} (hp : p.IsSettled) (f : α → β) (s : σ)
    (jobs : List Job) : (p.map f).advance s jobs =
      ⟨(p.advance s jobs).state, (p.advance s jobs).jobs, (p.advance s jobs).rest.map f⟩ := by
  cases p with
  | done a => rfl
  | await ready abandon next =>
    change (await ready abandon (next.map f)).advance s jobs = _
    simp only [advance_await]
    split
    · exact legFrom_map next f s jobs
    · rfl
  | act update next => exact hp.elim
  | spawn job next => exact hp.elim

theorem result?_map {p : Routine Job σ α} (hp : p.IsSettled) (f : α → β) :
    (p.map f).result? = p.result?.map f := by
  cases p with
  | done a => rfl
  | await ready abandon next => rfl
  | act update next => exact hp.elim
  | spawn job next => exact hp.elim

theorem isSettled_map {p : Routine Job σ α} (hp : p.IsSettled) (f : α → β) :
    (p.map f).IsSettled := by
  cases p with
  | done a => trivial
  | await ready abandon next => trivial
  | act update next => exact hp.elim
  | spawn job next => exact hp.elim

theorem both_done {p : Routine Job σ α} (hp : p.IsSettled) (b : β) :
    both p (done b) = p.map (·, b) := by
  cases p with
  | done a => rfl
  | await ready abandon next => rfl
  | act update next => exact hp.elim
  | spawn job next => exact hp.elim

theorem isSettled_both {p : Routine Job σ α} {q : Routine Job σ β} (hp : p.IsSettled)
    (hq : q.IsSettled) : (both p q).IsSettled := by
  cases p with
  | done a => exact isSettled_map hq _
  | await ready abandon next =>
    cases q with
    | done b => trivial
    | await ready' abandon' next' => trivial
    | act update next => exact hq.elim
    | spawn job next => exact hq.elim
  | act update next => exact hp.elim
  | spawn job next => exact hp.elim

/-- Each of the two makes a leg. -/
theorem legFrom_both (p : Routine Job σ α) (q : Routine Job σ β) (s : σ) (jobs : List Job) :
    (both p q).legFrom s jobs =
      let st := p.legFrom s jobs
      let st' := q.legFrom st.state st.jobs
      ⟨st'.state, st'.jobs, both st.rest st'.rest⟩ := by
  induction p generalizing s jobs with
  | done a => exact legFrom_map q _ s jobs
  | act update next ih => exact ih _ _ _
  | spawn job next ih => exact ih _ _
  | await ready abandon next ih =>
    -- The first one waits already, so that only the second one makes a leg.
    clear ih
    induction q generalizing s jobs with
    | done b => rfl
    | act update next ih => exact ih _ _ _
    | spawn job next ih => exact ih _ _
    | await ready' abandon' next' ih => rfl

/-- The first one goes on, or else the second one. -/
theorem advance_both {p : Routine Job σ α} {q : Routine Job σ β} (hp : p.IsSettled)
    (hq : q.IsSettled) (s : σ) (jobs : List Job) :
    (both p q).advance s jobs =
      if p.canGo s then
        ⟨(p.advance s jobs).state, (p.advance s jobs).jobs, both (p.advance s jobs).rest q⟩
      else ⟨(q.advance s jobs).state, (q.advance s jobs).jobs, both p (q.advance s jobs).rest⟩ := by
  cases p with
  | done a => exact advance_map hq _ s jobs
  | await ready abandon next =>
    cases q with
    | done b =>
      change (await ready abandon (next.map (·, b))).advance s jobs = _
      simp only [advance_await, canGo, advance_done]
      split
      · rw [both_done (isSettled_legFrom next s jobs)]
        exact legFrom_map next _ s jobs
      · rfl
    | await ready' abandon' next' =>
      have hwaits : ∀ p : Routine Job σ α, (both p (await ready' abandon' next')).legFrom s jobs =
          ⟨(p.legFrom s jobs).state, (p.legFrom s jobs).jobs,
            both (p.legFrom s jobs).rest (await ready' abandon' next')⟩ := fun p =>
        legFrom_both p _ s jobs
      change (await (fun s => ready s || ready' s) _ (act id fun s =>
        if ready s then both next (await ready' abandon' next')
        else both (await ready abandon next) next')).advance s jobs = _
      simp only [advance_await, canGo, legFrom_act, id_eq]
      by_cases hfirst : ready s = true
      · simpa [hfirst] using hwaits next
      · by_cases hsecond : ready' s = true
        · simpa [hfirst, hsecond] using legFrom_both (await ready abandon next) next' s jobs
        · simp only [hfirst, hsecond]
          rfl
    | act update next => exact hq.elim
    | spawn job next => exact hq.elim
  | act update next => exact hp.elim
  | spawn job next => exact hp.elim

theorem result?_both {p : Routine Job σ α} {q : Routine Job σ β} (hp : p.IsSettled)
    (hq : q.IsSettled) :
    (both p q).result? = p.result?.bind fun a => q.result?.map (a, ·) := by
  cases p with
  | done a => exact result?_map hq _
  | await ready abandon next =>
    cases q with
    | done b => rfl
    | await ready' abandon' next' => rfl
    | act update next => exact hq.elim
    | spawn job next => exact hq.elim
  | act update next => exact hp.elim
  | spawn job next => exact hp.elim

/-! ## All of them -/

theorem legFrom_all (ps : List (Routine Job σ α)) (s : σ) (jobs : List Job) :
    (all ps).legFrom s jobs = (Team.ofRoutines ps s jobs).stage := by
  induction ps generalizing s jobs with
  | nil => rfl
  | cons p ps ih =>
    simp only [all, legFrom_map, legFrom_both, ih]
    rfl

theorem isSettled_all {ps : List (Routine Job σ α)} (hps : ∀ p ∈ ps, p.IsSettled) :
    (all ps).IsSettled := by
  induction ps with
  | nil => trivial
  | cons p ps ih =>
    exact isSettled_map (isSettled_both (hps p List.mem_cons_self)
      (ih fun q hq => hps q (List.mem_cons_of_mem p hq))) _

theorem advance_all {ps : List (Routine Job σ α)} (hps : ∀ p ∈ ps, p.IsSettled) (s : σ)
    (jobs : List Job) : (all ps).advance s jobs = (Team.advance ps s jobs).stage := by
  induction ps with
  | nil => rfl
  | cons p ps ih =>
    have hp := hps p List.mem_cons_self
    have hrest : ∀ q ∈ ps, q.IsSettled := fun q hq => hps q (List.mem_cons_of_mem p hq)
    have hall := isSettled_all hrest
    simp only [all, advance_map (isSettled_both hp hall), advance_both hp hall, ih hrest,
      Team.advance]
    split <;> rfl

theorem result?_all {ps : List (Routine Job σ α)} (hps : ∀ p ∈ ps, p.IsSettled) :
    (all ps).result? = ps.mapM result? := by
  induction ps with
  | nil => rfl
  | cons p ps ih =>
    have hp := hps p List.mem_cons_self
    have hrest : ∀ q ∈ ps, q.IsSettled := fun q hq => hps q (List.mem_cons_of_mem p hq)
    have hall := isSettled_all hrest
    rw [all, result?_map (isSettled_both hp hall), result?_both hp hall, ih hrest,
      List.mapM_cons]
    cases p.result? <;> cases ps.mapM result? <;> rfl

end Routine

namespace Team

variable {Job σ α : Type} {t : Team Job σ α}

theorem isSettled_ofRoutines (ps : List (Routine Job σ α)) (s : σ) (jobs : List Job) :
    (ofRoutines ps s jobs).IsSettled := by
  induction ps generalizing s jobs with
  | nil => simp [IsSettled, ofRoutines]
  | cons p ps ih =>
    intro q hq
    rcases List.mem_cons.mp hq with rfl | hq
    · exact Routine.isSettled_legFrom _ _ _
    · exact ih _ _ q hq

theorem isSettled_advance {ps : List (Routine Job σ α)} (hps : ∀ p ∈ ps, p.IsSettled) (s : σ)
    (jobs : List Job) : (advance ps s jobs).IsSettled := by
  induction ps with
  | nil => simp [IsSettled, advance]
  | cons p ps ih =>
    have hp := hps p List.mem_cons_self
    have hrest : ∀ q ∈ ps, q.IsSettled := fun q hq => hps q (List.mem_cons_of_mem p hq)
    simp only [IsSettled, advance]
    split
    · exact List.forall_mem_cons.mpr ⟨hp.advance s jobs, hrest⟩
    · exact List.forall_mem_cons.mpr ⟨hp, ih hrest⟩

theorem IsSettled.step (h : t.IsSettled) (move : Move σ) : (t.step move).IsSettled := by
  cases move with
  | others change =>
    simp only [Team.step]
    split <;> exact h
  | goOn => exact isSettled_advance h _ _

theorem IsSettled.run (h : t.IsSettled) (moves : List (Move σ)) : (t.run moves).IsSettled := by
  induction moves generalizing t with
  | nil => exact h
  | cons move rest ih => exact ih (h.step move)

theorem result?_stage (h : t.IsSettled) : t.stage.result? = t.results? := Routine.result?_all h

theorem stage_step (h : t.IsSettled) (move : Move σ) :
    t.stage.step move = (t.step move).stage := by
  cases move with
  | others change =>
    simp only [Stage.step, Team.step, result?_stage h]
    split <;> rfl
  | goOn => exact Routine.advance_all h _ _

/-- A team goes on as the one routine does. -/
theorem stage_run (h : t.IsSettled) (moves : List (Move σ)) :
    t.stage.run moves = (t.run moves).stage := by
  induction moves generalizing t with
  | nil => rfl
  | cons move rest ih =>
    change (t.stage.step move).run rest = _
    rw [stage_step h]
    exact ih (h.step move)

/-! ## Each at its place -/

/-- A relation of the members to the places that they stand at, such as how they may end. -/
abbrev Matches (R : Routine Job σ α → β → Prop) (t : Team Job σ α) (places : List β) : Prop :=
  List.Forall₂ R t.members places

section Places

variable {β : Type} {R : Routine Job σ α → β → Prop} {places : List β}

theorem matches_ofRoutines (hleg : ∀ p b, R p b → ∀ s jobs, R (p.legFrom s jobs).rest b)
    {ps : List (Routine Job σ α)} (hps : List.Forall₂ R ps places) (s : σ) (jobs : List Job) :
    (ofRoutines ps s jobs).Matches R places := by
  induction hps generalizing s jobs with
  | nil => exact .nil
  | cons hp _ ih => exact .cons (hleg _ _ hp s jobs) (ih _ _)

theorem matches_advance (hturn : ∀ p b, R p b → ∀ s jobs, R (p.advance s jobs).rest b)
    {ps : List (Routine Job σ α)} (hps : List.Forall₂ R ps places) (s : σ) (jobs : List Job) :
    (advance ps s jobs).Matches R places := by
  induction hps with
  | nil => exact .nil
  | cons hp hps ih =>
    simp only [advance]
    split
    · exact .cons (hturn _ _ hp s jobs) hps
    · exact .cons hp ih

theorem Matches.run (hturn : ∀ p b, R p b → ∀ s jobs, R (p.advance s jobs).rest b)
    (ht : t.Matches R places) (moves : List (Move σ)) : (t.run moves).Matches R places := by
  induction moves generalizing t with
  | nil => exact ht
  | cons move rest ih =>
    refine ih (t := t.step move) ?_
    cases move with
    | others change =>
      simp only [Team.step]
      split <;> exact ht
    | goOn => exact matches_advance hturn ht _ _

end Places

/-- Every result stands at the place of the member that it is from. -/
theorem forall₂_of_results? {as : List α} (h : t.results? = some as) :
    t.Matches (fun p a => p.result? = some a) as := by
  obtain ⟨s, jobs, members⟩ := t
  induction members generalizing as with
  | nil =>
    obtain rfl : [] = as := Option.some.inj h
    exact .nil
  | cons p ps ih =>
    simp only [results?, List.mapM_cons, Option.bind_eq_bind, Option.bind_eq_some_iff] at h
    obtain ⟨a, ha, rest, hrest, heq⟩ := h
    obtain rfl : a :: rest = as := Option.some.inj heq
    exact .cons ha (ih hrest)

theorem length_ofRoutines (ps : List (Routine Job σ α)) (s : σ) (jobs : List Job) :
    (ofRoutines ps s jobs).members.length = ps.length := by
  induction ps generalizing s jobs with
  | nil => rfl
  | cons p ps ih => exact congrArg (· + 1) (ih _ _)

theorem length_advance (ps : List (Routine Job σ α)) (s : σ) (jobs : List Job) :
    (advance ps s jobs).members.length = ps.length := by
  induction ps with
  | nil => rfl
  | cons p ps ih =>
    simp only [advance]
    split
    · rfl
    · exact congrArg (· + 1) ih

theorem length_step (move : Move σ) : (t.step move).members.length = t.members.length := by
  cases move with
  | others change =>
    simp only [step]
    split <;> rfl
  | goOn => exact length_advance _ _ _

theorem length_run (moves : List (Move σ)) :
    (t.run moves).members.length = t.members.length := by
  induction moves generalizing t with
  | nil => rfl
  | cons move rest ih => exact (ih (t := t.step move)).trans (length_step move)

/-- There are as many results as there were routines. -/
theorem length_of_results? {ps : List (Routine Job σ α)} {s : σ} {moves : List (Move σ)}
    {as : List α} (h : ((ofRoutines ps s []).run moves).results? = some as) :
    as.length = ps.length := by
  rw [← (forall₂_of_results? h).length_eq, length_run, length_ofRoutines]

/-- Routines that end like this, whatever happens, come to just that as a team. -/
theorem results?_eq_of_endsWith {ps : List (Routine Job σ α)} {s : σ} {moves : List (Move σ)}
    {as outcomes : List α} (hps : List.Forall₂ (fun p a => p.EndsWith (· = a)) ps outcomes)
    (h : ((ofRoutines ps s []).run moves).results? = some as) : as = outcomes := by
  have ht : ((ofRoutines ps s []).run moves).Matches (fun p a => p.EndsWith (· = a)) outcomes :=
    (matches_ofRoutines (fun _ _ hp s jobs => hp.legFrom s jobs) hps s []).run
      (fun _ _ hp s jobs => hp.advance s jobs) moves
  have hresults := forall₂_of_results? h
  unfold Matches at ht hresults
  clear h hps
  generalize ((ofRoutines ps s []).run moves).members = members at ht hresults
  induction ht generalizing as with
  | nil =>
    cases hresults
    rfl
  | cons hp _ ih =>
    cases hresults with
    | cons ha has => rw [ih has, Routine.EndsWith.of_result? hp ha]

end Team

/-! ## Results that are read where they come -/

namespace Routine

variable {Job σ α β : Type}

theorem canGo_map (p : Routine Job σ α) (f : α → β) (s : σ) : (p.map f).canGo s = p.canGo s := by
  cases p <;> rfl

end Routine

namespace Stage

variable {Job σ α β : Type}

/-- The same stage of a routine whose result is read like this. -/
def map (f : α → β) (st : Stage Job σ α) : Stage Job σ β := ⟨st.state, st.jobs, st.rest.map f⟩

variable {st : Stage Job σ α} {f : α → β}

theorem result?_map (h : st.rest.IsSettled) : (st.map f).result? = st.result?.map f :=
  Routine.result?_map h f

theorem step_map (h : st.rest.IsSettled) (move : Move σ) :
    (st.map f).step move = (st.step move).map f := by
  cases move with
  | others change =>
    simp only [step, result?_map h, Option.isSome_map]
    split <;> rfl
  | goOn => exact Routine.advance_map h f _ _

theorem run_map (h : st.rest.IsSettled) (moves : List (Move σ)) :
    (st.map f).run moves = (st.run moves).map f := by
  induction moves generalizing st with
  | nil => rfl
  | cons move rest ih =>
    change ((st.map f).step move).run rest = _
    rw [step_map h]
    exact ih (isSettled_step h move)

end Stage

namespace Team

variable {Job σ α β κ : Type}

/-- The same team of routines whose results are read by the places that they stand at. -/
def mapAt (f : κ → α → β) (places : List κ) (t : Team Job σ α) : Team Job σ β :=
  ⟨t.state, t.jobs, List.zipWith (fun place p => p.map (f place)) places t.members⟩

variable {f : κ → α → β} {places : List κ} {ps : List (Routine Job σ α)} {t : Team Job σ α}

theorem ofRoutines_mapAt (hplaces : places.length = ps.length) (s : σ) (jobs : List Job) :
    ofRoutines (List.zipWith (fun place p => p.map (f place)) places ps) s jobs =
      (ofRoutines ps s jobs).mapAt f places := by
  induction ps generalizing places s jobs with
  | nil =>
    rw [List.length_eq_zero_iff.mp hplaces]
    rfl
  | cons p ps ih =>
    obtain ⟨place, places, rfl⟩ := List.exists_cons_of_length_eq_add_one hplaces
    simp only [List.zipWith_cons_cons, ofRoutines, Routine.legFrom_map, mapAt]
    rw [ih (Nat.succ.inj hplaces)]
    rfl

theorem advance_mapAt (hplaces : places.length = ps.length) (hps : ∀ p ∈ ps, p.IsSettled)
    (s : σ) (jobs : List Job) :
    advance (List.zipWith (fun place p => p.map (f place)) places ps) s jobs =
      (advance ps s jobs).mapAt f places := by
  induction ps generalizing places with
  | nil =>
    rw [List.length_eq_zero_iff.mp hplaces]
    rfl
  | cons p ps ih =>
    obtain ⟨place, places, rfl⟩ := List.exists_cons_of_length_eq_add_one hplaces
    obtain ⟨hp, hps⟩ := List.forall_mem_cons.mp hps
    simp only [List.zipWith_cons_cons, advance, Routine.canGo_map, Routine.advance_map hp,
      ih (Nat.succ.inj hplaces) hps]
    split <;> rfl

theorem IsSettled.mapAt (ht : t.IsSettled) : (t.mapAt f places).IsSettled := by
  intro p hp
  obtain ⟨i, hi, rfl⟩ := List.mem_iff_getElem.mp hp
  simp only [Team.mapAt, List.getElem_zipWith]
  exact Routine.isSettled_map (ht _ (List.getElem_mem _)) _

theorem results?_mapAt (hplaces : places.length = t.members.length) (ht : t.IsSettled) :
    (t.mapAt f places).results? = t.results?.map (List.zipWith f places) := by
  obtain ⟨s, jobs, members⟩ := t
  simp only [results?, mapAt]
  induction members generalizing places with
  | nil =>
    rw [List.length_eq_zero_iff.mp hplaces]
    rfl
  | cons p ps ih =>
    obtain ⟨place, places, rfl⟩ := List.exists_cons_of_length_eq_add_one hplaces
    obtain ⟨hp, hps⟩ := List.forall_mem_cons.mp ht
    have hrest := ih (Nat.succ.inj hplaces) hps
    simp only [List.zipWith_cons_cons, List.mapM_cons, Routine.result?_map hp, hrest]
    cases p.result? <;> cases ps.mapM Routine.result? <;> rfl

theorem step_mapAt (hplaces : places.length = t.members.length) (ht : t.IsSettled)
    (move : Move σ) : (t.mapAt f places).step move = (t.step move).mapAt f places := by
  cases move with
  | others change =>
    simp only [step, results?_mapAt hplaces ht, Option.isSome_map]
    split <;> rfl
  | goOn => exact advance_mapAt hplaces ht _ _

/-- Reading the results changes nothing in how a team goes on. -/
theorem run_mapAt (hplaces : places.length = t.members.length) (ht : t.IsSettled)
    (moves : List (Move σ)) : (t.mapAt f places).run moves = (t.run moves).mapAt f places := by
  induction moves generalizing t with
  | nil => rfl
  | cons move rest ih =>
    change ((t.mapAt f places).step move).run rest = _
    rw [step_mapAt hplaces ht]
    exact ih (hplaces.trans (length_step move).symm) (ht.step move)

end Team

end LanguageHub
