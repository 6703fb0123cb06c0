import LanguageHub.Proofs.Routine.Schedule
import LanguageHub.Routine.Machine
import Mathlib.Data.List.Nodup
import Mathlib.Data.List.Perm.Basic

/-!
# Companies

The tasks of a machine go on in any order, one leg at a time, and each keeps a pact with all the
others. A company says what these pacts are, task by task: where the company agrees, what one of
them guarantees another may rely on. Then a leg of any task leaves all of them as they may expect.

Laws: relying on something is reflexive and transitive.
-/

namespace LanguageHub

namespace Machine

variable {Job σ : Type}

/-- The task at this place makes a leg, if it can go on. With any of them the next leg may be
that of any task that is ready, so every order of the tasks is among the runs. -/
def advance (program : Job → Routine Job σ (Option Job)) (i : Nat) (m : Machine Job σ) :
    Machine Job σ :=
  match m.tasks[i]? with
  | none => m
  | some t =>
    if t.rest.isReady m.state then
      let st := t.rest.resumed.legFrom m.state []
      st.jobs.foldl (start program)
        { m with state := st.state, tasks := m.tasks.eraseIdx i ++ following program t.id st.rest }
    else m

variable {program : Job → Routine Job σ (Option Job)} {i : Nat} {m : Machine Job σ}
  {t t' : RunningTask Job σ}

theorem advance_of_none (ht : m.tasks[i]? = none) : m.advance program i = m := by
  simp only [advance, ht]

theorem advance_of_not_ready (ht : m.tasks[i]? = some t)
    (hready : ¬ t.rest.isReady m.state = true) : m.advance program i = m := by
  simp only [advance, ht, if_neg hready]

theorem advance_of_ready (ht : m.tasks[i]? = some t) (hready : t.rest.isReady m.state = true) :
    m.advance program i =
      (t.rest.resumed.legFrom m.state []).jobs.foldl (start program)
        { m with
          state := (t.rest.resumed.legFrom m.state []).state
          tasks := m.tasks.eraseIdx i ++
            following program t.id (t.rest.resumed.legFrom m.state []).rest } := by
  simp only [advance, ht, hready, if_true]

theorem mem_startAll (jobs : List Job) (ht : t ∈ m.tasks) :
    t ∈ (jobs.foldl (start program) m).tasks := by
  induction jobs generalizing m with
  | nil => exact ht
  | cons job rest ih =>
    apply ih
    exact List.mem_append_left _ ht

theorem nextTask_startAll (jobs : List Job) {id : Nat} (hid : id < m.nextTask) :
    id < (jobs.foldl (start program) m).nextTask := by
  induction jobs generalizing m with
  | nil => exact hid
  | cons job rest ih =>
    apply ih
    exact Nat.lt_succ_of_lt hid

theorem nextTask_advance (i : Nat) {id : Nat} (hid : id < m.nextTask) :
    id < (m.advance program i).nextTask := by
  cases ht : m.tasks[i]? with
  | none => rwa [advance_of_none ht]
  | some t =>
    by_cases hready : t.rest.isReady m.state = true
    · rw [advance_of_ready ht hready]
      exact nextTask_startAll _ hid
    · rwa [advance_of_not_ready ht hready]

/-- A leg of one task leaves the others where they are. -/
theorem mem_advance (ht : m.tasks[i]? = some t) (ht' : t' ∈ m.tasks) (hne : t'.id ≠ t.id) :
    t' ∈ (m.advance program i).tasks := by
  by_cases hready : t.rest.isReady m.state = true
  · rw [advance_of_ready ht hready]
    apply mem_startAll
    apply List.mem_append_left
    obtain ⟨j, hj, rfl⟩ := List.getElem_of_mem ht'
    refine List.mem_eraseIdx_iff_getElem.mpr ⟨j, hj, ?_, rfl⟩
    rintro rfl
    rw [List.getElem?_eq_getElem hj, Option.some.injEq] at ht
    exact hne (congrArg RunningTask.id ht)
  · rwa [advance_of_not_ready ht hready]

/-- A task that has not ended is still there. -/
theorem exists_mem_advance (program : Job → Routine Job σ (Option Job))
    (ht : m.tasks[i]? = some t)
    (hrest : (t.rest.resumed.legFrom m.state []).result? ≠ some none) :
    ∃ t' ∈ (m.advance program i).tasks, t'.id = t.id := by
  by_cases hready : t.rest.isReady m.state = true
  · have hfollows : ∃ t' ∈ following program t.id (t.rest.resumed.legFrom m.state []).rest,
        t'.id = t.id := by
      unfold following
      split
      · rename_i hdone
        exact absurd (congrArg Routine.result? hdone) hrest
      · exact ⟨_, List.mem_singleton_self _, rfl⟩
      · exact ⟨_, List.mem_singleton_self _, rfl⟩
    obtain ⟨t', hmem, hid⟩ := hfollows
    refine ⟨t', ?_, hid⟩
    rw [advance_of_ready ht hready]
    apply mem_startAll
    exact List.mem_append_right _ hmem
  · rw [advance_of_not_ready ht hready]
    exact ⟨t, List.mem_of_getElem? ht, rfl⟩

/-! ## Ids -/

theorem perm_of_getElem? {ts : List (RunningTask Job σ)} (ht : ts[i]? = some t) :
    (t :: ts.eraseIdx i).Perm ts := by
  obtain ⟨hi, rfl⟩ := List.getElem?_eq_some_iff.mp ht
  exact List.getElem_cons_eraseIdx_perm hi

theorem id_following {id : Nat} {p : Routine Job σ (Option Job)}
    (ht : t ∈ following program id p) : t.id = id := by
  unfold following at ht
  split at ht
  · cases ht
  · rw [List.mem_singleton.mp ht]
  · rw [List.mem_singleton.mp ht]

/-- Every task has an id of its own, which was issued. -/
structure Tidy (m : Machine Job σ) : Prop where
  issued : ∀ t ∈ m.tasks, t.id < m.nextTask
  distinct : (m.tasks.map (·.id)).Nodup

theorem tidy_ofState (s : σ) : (ofState s : Machine Job σ).Tidy := ⟨nofun, .nil⟩

theorem Tidy.unique (hm : m.Tidy) (ht : t ∈ m.tasks) (ht' : t' ∈ m.tasks) (hid : t'.id = t.id) :
    t' = t :=
  List.inj_on_of_nodup_map hm.distinct ht' ht hid

theorem Tidy.start (hm : m.Tidy) (job : Job) : (m.start program job).Tidy where
  issued t ht := by
    rcases List.mem_append.mp ht with hold | hnew
    · exact Nat.lt_succ_of_lt (hm.issued t hold)
    · rw [List.mem_singleton.mp hnew]
      exact Nat.lt_succ_self _
  distinct := by
    have hfresh : ∀ t ∈ m.tasks, t.id ≠ m.nextTask := fun t ht => Nat.ne_of_lt (hm.issued t ht)
    simpa [Machine.start, List.nodup_append] using ⟨hm.distinct, hfresh⟩

theorem Tidy.startAll (hm : m.Tidy) (jobs : List Job) :
    (jobs.foldl (Machine.start program) m).Tidy := by
  induction jobs generalizing m with
  | nil => exact hm
  | cons job rest ih => exact ih (hm.start job)

theorem Tidy.mem_eraseIdx (hm : m.Tidy) (ht : m.tasks[i]? = some t)
    (ht' : t' ∈ m.tasks.eraseIdx i) : t' ∈ m.tasks ∧ t'.id ≠ t.id := by
  have hdistinct : ((t :: m.tasks.eraseIdx i).map (·.id)).Nodup :=
    (((perm_of_getElem? ht).map _).nodup_iff).mpr hm.distinct
  rw [List.map_cons, List.nodup_cons] at hdistinct
  exact ⟨List.mem_of_mem_eraseIdx ht', fun heq => hdistinct.1 (heq ▸ List.mem_map_of_mem ht')⟩

/-- What a task goes on as takes the place of the task. -/
theorem Tidy.leg (hm : m.Tidy) (program : Job → Routine Job σ (Option Job))
    (ht : m.tasks[i]? = some t) (s : σ)
    (p : Routine Job σ (Option Job)) :
    ({ m with state := s, tasks := m.tasks.eraseIdx i ++ following program t.id p } :
      Machine Job σ).Tidy where
  issued t' ht' := by
    rcases List.mem_append.mp ht' with hold | hnew
    · exact hm.issued t' (List.mem_of_mem_eraseIdx hold)
    · rw [id_following hnew]
      exact hm.issued t (List.mem_of_getElem? ht)
  distinct := by
    rw [List.map_append, List.nodup_append]
    refine ⟨hm.distinct.sublist ((List.eraseIdx_sublist ..).map _), ?_, fun a ha b hb => ?_⟩
    · unfold following
      split <;> simp
    · obtain ⟨t', ht', rfl⟩ := List.mem_map.mp ha
      obtain ⟨t'', ht'', rfl⟩ := List.mem_map.mp hb
      rw [id_following ht'']
      exact (hm.mem_eraseIdx ht ht').2

theorem Tidy.advance (hm : m.Tidy) (i : Nat) : (m.advance program i).Tidy := by
  cases ht : m.tasks[i]? with
  | none => rwa [advance_of_none ht]
  | some t =>
    by_cases hready : t.rest.isReady m.state = true
    · rw [advance_of_ready ht hready]
      exact (hm.leg program ht _ _).startAll _
    · rwa [advance_of_not_ready ht hready]

theorem of_mem_startAll (jobs : List Job) (ht : t ∈ (jobs.foldl (start program) m).tasks) :
    t ∈ m.tasks ∨ m.nextTask ≤ t.id := by
  induction jobs generalizing m with
  | nil => exact .inl ht
  | cons job rest ih =>
    rcases ih ht with hold | hnew
    · rcases List.mem_append.mp hold with hold | hnew
      · exact .inl hold
      · rw [List.mem_singleton.mp hnew]
        exact .inr (Nat.le_refl _)
    · exact .inr (Nat.le_of_succ_le hnew)

/-- What holds of all tasks and of all that are started holds of all that are there then. -/
theorem forall_mem_startAll {good : RunningTask Job σ → Prop} {jobs : List Job}
    (hm : ∀ t ∈ m.tasks, good t)
    (hjobs : ∀ job ∈ jobs, ∀ id, m.nextTask ≤ id → good ⟨id, program job⟩) :
    ∀ t ∈ (jobs.foldl (start program) m).tasks, good t := by
  induction jobs generalizing m with
  | nil => exact hm
  | cons job rest ih =>
    rw [List.forall_mem_cons] at hjobs
    refine ih (fun t ht => ?_) fun job' hjob' id hid =>
      hjobs.2 job' hjob' id (Nat.le_of_succ_le hid)
    rcases List.mem_append.mp ht with hold | hnew
    · exact hm t hold
    · rw [List.mem_singleton.mp hnew]
      exact hjobs.1 _ (Nat.le_refl _)

/-- After a leg a task that was there before has either waited or is what followed. -/
theorem of_mem_advance (i : Nat) (ht' : t' ∈ (m.advance program i).tasks)
    (hid : t'.id < m.nextTask) :
    t' ∈ m.tasks ∨ ∃ t ∈ m.tasks, t.rest.isReady m.state = true ∧
      t' ∈ following program t.id (t.rest.resumed.legFrom m.state []).rest := by
  cases ht : m.tasks[i]? with
  | none =>
    rw [advance_of_none ht] at ht'
    exact .inl ht'
  | some t =>
    by_cases hready : t.rest.isReady m.state = true
    · rw [advance_of_ready ht hready] at ht'
      rcases of_mem_startAll _ ht' with hold | hnew
      · rcases List.mem_append.mp hold with hold | hnext
        · exact .inl (List.mem_of_mem_eraseIdx hold)
        · exact .inr ⟨t, List.mem_of_getElem? ht, hready, hnext⟩
      · exact absurd hid (Nat.not_lt_of_le hnew)
    · rw [advance_of_not_ready ht hready] at ht'
      exact .inl ht'

/-- What holds of the tasks that waited, of what followed the leg and of the jobs that it started
holds of all tasks that are there then. -/
theorem Tidy.forall_mem_advance {good : RunningTask Job σ → Prop} (hm : m.Tidy)
    (ht : m.tasks[i]? = some t) (hready : t.rest.isReady m.state = true)
    (hothers : ∀ t' ∈ m.tasks, t'.id ≠ t.id → good t')
    (hnext : ∀ t' ∈ following program t.id (t.rest.resumed.legFrom m.state []).rest, good t')
    (hjobs : ∀ job ∈ (t.rest.resumed.legFrom m.state []).jobs, ∀ id, m.nextTask ≤ id →
      good ⟨id, program job⟩) :
    ∀ t' ∈ (m.advance program i).tasks, good t' := by
  rw [advance_of_ready ht hready]
  refine forall_mem_startAll (fun t' ht' => ?_) hjobs
  rcases List.mem_append.mp ht' with hold | hnew
  · obtain ⟨hmem, hne⟩ := hm.mem_eraseIdx ht hold
    exact hothers t' hmem hne
  · exact hnext t' hnew

end Machine

structure Company (Job σ : Type) where
  World : Type
  state : World → σ
  /-- The world once a task has brought the state to this. -/
  move : Nat → World → σ → World
  state_move : ∀ id w s, state (move id w s) = s
  allows : World → σ → σ → Prop
  inv : World → Prop
  guarantee : Nat → World → World → Prop
  rely : Nat → World → World → Prop
  starts : World → Job → Prop
  /-- The tasks that there are suit each other in this world. -/
  agrees : World → Prop := fun _ => True
  rely_refl : ∀ id w, rely id w w
  rely_trans : ∀ {id w w' w''}, rely id w w' → rely id w' w'' → rely id w w''
  rely_of_guarantee : ∀ {id id' w w'}, id' ≠ id → agrees w → inv w → inv w' →
    guarantee id w w' → rely id' w w'

namespace Company

open Routine Pact

variable {Job σ : Type}

/-- The pact of one task with all the others. -/
abbrev pact (C : Company Job σ) (id : Nat) : Pact Job σ where
  World := C.World
  state := C.state
  move := C.move id
  state_move := C.state_move id
  allows := C.allows
  inv := C.inv
  guarantee := C.guarantee id
  rely := C.rely id
  starts := C.starts

variable {C : Company Job σ} {program : Job → Routine Job σ (Option Job)}
  {goal : ∀ id, Moment (C.pact id) → Option Job → Prop} {m : Machine Job σ} {w w' : C.World}

/-- All tasks of the machine keep their pacts, each on its way to its own goal. -/
structure Crew (C : Company Job σ) (goal : ∀ id, Moment (C.pact id) → Option Job → Prop)
    (m : Machine Job σ) (w : C.World) : Prop where
  state : C.state w = m.state
  inv : C.inv w
  issued : ∀ t ∈ m.tasks, t.id < m.nextTask
  distinct : (m.tasks.map (·.id)).Nodup
  waits : ∀ t ∈ m.tasks, t.rest.Waits (P := C.pact t.id) w (goal t.id)

theorem waits_of_rely {id : Nat} {p : Routine Job σ (Option Job)}
    (h : p.Waits (P := C.pact id) w (goal id)) (hrely : C.rely id w w') :
    p.Waits (P := C.pact id) w' (goal id) := fun v hv hrely' hready =>
  h v hv (C.rely_trans hrely hrely') hready

/-- What comes from elsewhere is what every task may rely on. -/
theorem Crew.outside (hcrew : Crew C goal m w) (hinv : C.inv w')
    (hrely : ∀ id, id < m.nextTask → C.rely id w w') :
    Crew C goal { m with state := C.state w' } w' where
  state := rfl
  inv := hinv
  issued := hcrew.issued
  distinct := hcrew.distinct
  waits t ht := waits_of_rely (hcrew.waits t ht) (hrely _ (hcrew.issued t ht))

theorem Crew.tidy (hcrew : Crew C goal m w) : m.Tidy := ⟨hcrew.issued, hcrew.distinct⟩

theorem Crew.start (hcrew : Crew C goal m w) {job : Job}
    (hjob : (program job).Waits (P := C.pact m.nextTask) w (goal m.nextTask)) :
    Crew C goal (m.start program job) w where
  state := hcrew.state
  inv := hcrew.inv
  issued := (hcrew.tidy.start job).issued
  distinct := (hcrew.tidy.start job).distinct
  waits t ht := by
    rcases List.mem_append.mp ht with hold | hnew
    · exact hcrew.waits t hold
    · rw [List.mem_singleton.mp hnew]
      exact hjob

theorem Crew.startAll (hcrew : Crew C goal m w) {jobs : List Job}
    (hjobs : ∀ job ∈ jobs, ∀ id, m.nextTask ≤ id →
      (program job).Waits (P := C.pact id) w (goal id)) :
    Crew C goal (jobs.foldl (Machine.start program) m) w := by
  induction jobs generalizing m with
  | nil => exact hcrew
  | cons job rest ih =>
    rw [List.forall_mem_cons] at hjobs
    exact ih (hcrew.start (hjobs.1 _ (Nat.le_refl _))) fun job hjob id hid =>
      hjobs.2 job hjob id (Nat.le_of_succ_le hid)

/-- How the task at some place comes to its next wait or to its end. -/
structure Advances (C : Company Job σ) (goal : ∀ id, Moment (C.pact id) → Option Job → Prop)
    (t : RunningTask Job σ) (m : Machine Job σ) (w w' : C.World) : Prop where
  state : C.state w' = (t.rest.resumed.legFrom m.state []).state
  inv : C.inv w'
  guarantee : C.guarantee t.id w w'
  jobs : ∀ job ∈ (t.rest.resumed.legFrom m.state []).jobs, C.starts w' job
  ended : ∀ r, (t.rest.resumed.legFrom m.state []).result? = some r →
    ∃ m' : Moment (C.pact t.id), m'.start = w ∧ m'.now = w' ∧ goal t.id m' r
  waits : (t.rest.resumed.legFrom m.state []).result? = none →
    (t.rest.resumed.legFrom m.state []).rest.Waits (P := C.pact t.id) w' (goal t.id)

/-- A leg that makes only changes that are allowed leads where the pact says, which may be shown of
any program with the same leg. -/
theorem advances_of_keeps {t : RunningTask Job σ} {p : Routine Job σ (Option Job)}
    (hstate : C.state w = m.state)
    (hkeeps : p.Keeps (P := C.pact t.id) (fun _ _ => True) (.resume w) (goal t.id))
    (hleg : t.rest.resumed.legFrom m.state [] = p.legFrom m.state [])
    (hpasses : p.Passes (C.allows w) m.state) (hsound : ∀ m r, goal t.id m r → m.Sound) :
    ∃ w', Advances C goal t m w w' := by
  have hnow : (Moment.resume w : Moment (C.pact t.id)).state = m.state := hstate
  obtain ⟨m', hstart, hstate', hjobs, hrest⟩ := hkeeps.leg (by rw [hnow]; exact hpasses)
  have hnone : (Moment.resume w : Moment (C.pact t.id)).jobs = [] := rfl
  rw [hnow, hnone] at hstate' hjobs hrest
  have hm' : m'.Sound := by
    split at hrest
    · exact hsound _ _ hrest
    · exact hrest.1
  have hguarantee : C.guarantee t.id m'.start m'.now := hm'.guarantee
  rw [hstart] at hguarantee
  refine ⟨m'.now, hleg ▸ hstate', hm'.inv, hguarantee, fun job hjob => hm'.jobs job ?_,
    fun r hr => ?_, fun hwaits => ?_⟩
  · rw [hleg] at hjob
    rw [hjobs]
    exact hjob
  · rw [hleg] at hr
    have hdone : (p.leg m.state []).2.2 = .done r := Stage.rest_of_result? hr
    rw [hdone] at hrest
    exact ⟨m', hstart, rfl, hrest⟩
  · rw [hleg] at hwaits ⊢
    split at hrest
    · rename_i r hdone
      have hover : (p.legFrom m.state []).result? = some r := congrArg Routine.result? hdone
      exact absurd (hover.symm.trans hwaits) (by simp)
    · exact hrest.2

theorem Crew.advances (hcrew : Crew C goal m w) {t : RunningTask Job σ} (ht : t ∈ m.tasks)
    (hready : t.rest.isReady m.state = true)
    (hpasses : t.rest.resumed.Passes (C.allows w) m.state)
    (hsound : ∀ id m r, goal id m r → m.Sound) : ∃ w', Advances C goal t m w w' :=
  have hkeeps := hcrew.waits t ht w hcrew.inv (C.rely_refl _ w) (by rwa [← hcrew.state] at hready)
  advances_of_keeps hcrew.state hkeeps rfl hpasses (hsound t.id)

/-- What follows a leg keeps the pact if the job does that it goes on as. -/
theorem Advances.following {t t' : RunningTask Job σ} (hadv : Advances C goal t m w w')
    (hnext : ∀ job, (t.rest.resumed.legFrom m.state []).result? = some (some job) →
      (program job).Waits (P := C.pact t.id) w' (goal t.id))
    (ht' : t' ∈ Machine.following program t.id (t.rest.resumed.legFrom m.state []).rest) :
    t'.rest.Waits (P := C.pact t'.id) w' (goal t'.id) := by
  unfold Machine.following at ht'
  split at ht'
  · cases ht'
  · rename_i job hdone
    rw [List.mem_singleton.mp ht']
    exact hnext job (congrArg Routine.result? hdone)
  · rename_i hnone hsome
    rw [List.mem_singleton.mp ht']
    refine hadv.waits ?_
    cases hresult : (t.rest.resumed.legFrom m.state []).result? with
    | none => rfl
    | some r =>
      have hdone := Stage.rest_of_result? hresult
      cases r with
      | none => exact absurd hdone hnone
      | some job => exact absurd hdone (hsome job)

/-- After a leg all tasks keep their pacts, the new ones included. -/
theorem Crew.advance (hcrew : Crew C goal m w) (hagrees : C.agrees w) {i : Nat}
    {t : RunningTask Job σ}
    (ht : m.tasks[i]? = some t) (hready : t.rest.isReady m.state = true)
    (hadv : Advances C goal t m w w')
    (hjobs : ∀ job, C.starts w' job → ∀ id, m.nextTask ≤ id →
      (program job).Waits (P := C.pact id) w' (goal id))
    (hnext : ∀ job, (t.rest.resumed.legFrom m.state []).result? = some (some job) →
      (program job).Waits (P := C.pact t.id) w' (goal t.id)) :
    Crew C goal (m.advance program i) w' := by
  have htidy := hcrew.tidy.leg program ht
    (t.rest.resumed.legFrom m.state []).state (t.rest.resumed.legFrom m.state []).rest
  rw [Machine.advance_of_ready ht hready]
  refine Crew.startAll ⟨hadv.state, hadv.inv, htidy.issued, htidy.distinct, fun t' ht' => ?_⟩
    fun job hjob => hjobs job (hadv.jobs job hjob)
  rcases List.mem_append.mp ht' with hold | hnew
  · obtain ⟨hmem, hne⟩ := hcrew.tidy.mem_eraseIdx ht hold
    exact waits_of_rely (hcrew.waits t' hmem)
      (C.rely_of_guarantee hne hagrees hcrew.inv hadv.inv hadv.guarantee)
  · exact hadv.following hnext hnew

end Company

end LanguageHub
