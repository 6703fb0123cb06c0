import LanguageHub.Proofs.Lifecycle.Calls
import LanguageHub.Proofs.Routine.Conduct

/-!
# Sessions stay in order

Any number of calls at a session may run at the same time, beside the readers of its clients, its
idle timers and the tasks that watch its connections, and everything else may change around them.
In whatever order they take turns, the session is in order wherever all of them wait, and every
change that one of them makes is lawful.
-/

namespace LanguageHub.Lifecycle

open Routine Pact

/-- What happens next around a session. -/
inductive Action where
  /-- The task at this place goes on, if it can. -/
  | goOn (place : Nat)
  | call (slot : Nat) (call : Call)
  | others (change : Hub → Hub)

/-- The calls are at this session, and the others spare it. -/
def Action.IsAt (s : Nat) : Action → Prop
  | goOn _ => True
  | call _ c => c.IsAt s
  | others change => ∀ h, Hub.Spares s h (change h)

def step (m : Machine Job Hub) : Action → Machine Job Hub
  | .goOn place => m.advance Job.program place
  | .call slot c => m.start Job.program (.call slot c)
  | .others change => m.modify change

def run (m : Machine Job Hub) (actions : List Action) : Machine Job Hub := actions.foldl step m

theorem run_append (m : Machine Job Hub) (before after : List Action) :
    run m (before ++ after) = run (run m before) after := List.foldl_append

section Tasks

variable {m : Machine Job Hub} {id : Nat}

theorem nextTask_step (action : Action) (hid : id < m.nextTask) :
    id < (step m action).nextTask := by
  cases action with
  | goOn place => exact Machine.nextTask_advance place hid
  | call slot c => exact Nat.lt_succ_of_lt hid
  | others change => exact hid

theorem tidy_step (hm : m.Tidy) (action : Action) : (step m action).Tidy := by
  cases action with
  | goOn place => exact hm.advance place
  | call slot c => exact hm.start _
  | others change => exact ⟨hm.issued, hm.distinct⟩

theorem tidy_run (hm : m.Tidy) (actions : List Action) : (run m actions).Tidy := by
  induction actions generalizing m with
  | nil => exact hm
  | cons action rest ih => exact ih (tidy_step hm action)

/-! ### Of one conduct -/

variable {moves : Hub → Hub → Prop} {starts : Job → Prop}

/-- A call that comes conducts itself so, and the others change nothing otherwise. -/
def Action.Conducts (moves : Hub → Hub → Prop) (starts : Job → Prop) : Action → Prop
  | goOn _ => True
  | call slot c => (Job.program (.call slot c)).IsConducted moves starts
  | others change => ∀ h, moves h (change h)

theorem isConducted_step (hprogram : ∀ job, starts job → job.program.IsConducted moves starts)
    (hm : m.IsConducted moves starts) {action : Action} (haction : action.Conducts moves starts) :
    (step m action).IsConducted moves starts := by
  cases action with
  | goOn place => exact hm.advance hprogram place
  | call slot c => exact hm.start haction
  | others change => exact hm

theorem moves_step (hrefl : ∀ h, moves h h)
    (htrans : ∀ {h h' h''}, moves h h' → moves h' h'' → moves h h'')
    (hm : m.IsConducted moves starts) {action : Action} (haction : action.Conducts moves starts) :
    moves m.state (step m action).state := by
  cases action with
  | goOn place => exact hm.moves_advance hrefl htrans place
  | call slot c => exact hrefl _
  | others change => exact haction m.state

theorem isConducted_run (hprogram : ∀ job, starts job → job.program.IsConducted moves starts)
    (hm : m.IsConducted moves starts) {actions : List Action}
    (hactions : ∀ action ∈ actions, action.Conducts moves starts) :
    (run m actions).IsConducted moves starts := by
  induction actions generalizing m with
  | nil => exact hm
  | cons action rest ih =>
    rw [List.forall_mem_cons] at hactions
    exact ih (isConducted_step hprogram hm hactions.1) hactions.2

/-- If every task and everything around them conducts itself in one way, the state only moves that
way in a run. -/
theorem moves_run (hprogram : ∀ job, starts job → job.program.IsConducted moves starts)
    (hrefl : ∀ h, moves h h) (htrans : ∀ {h h' h''}, moves h h' → moves h' h'' → moves h h'')
    (hm : m.IsConducted moves starts) {actions : List Action}
    (hactions : ∀ action ∈ actions, action.Conducts moves starts) :
    moves m.state (run m actions).state := by
  induction actions generalizing m with
  | nil => exact hrefl _
  | cons action rest ih =>
    rw [List.forall_mem_cons] at hactions
    exact htrans (moves_step hrefl htrans hm hactions.1)
      (ih (isConducted_step hprogram hm hactions.1) hactions.2)

end Tasks

/-- The session is in order, and whatever a task does next is lawful, change by change. -/
structure WellKept (s : Nat) (m : Machine Job Hub) : Prop where
  order : (m.state.session s).InOrder
  lawful : ∀ t ∈ m.tasks, t.rest.isReady m.state = true →
    t.rest.resumed.Passes (Hub.Lawful s) m.state

variable {s me : Nat} {m : Machine Job Hub} {w w' : World}

/-! ## The crew -/

/-- A task at the session ends with a job there or without one. -/
def goal (s me : Nat) (m : Moment (pact s me)) (r : Option Job) : Prop :=
  m.Sound ∧ ∀ job, r = some job → job.IsAt s

abbrev Crew (s : Nat) (m : Machine Job Hub) (w : World) : Prop :=
  Company.Crew (company s) (goal s) m w

theorem waits_of_reaches {p : Program (Option Job)} {Q : Option Job → World → Prop}
    (hp : Reaches s me (fun _ => True) p Q) (hQ : ∀ r w, Q r w → ∀ job, r = some job → job.IsAt s) :
    p.Waits (P := pact s me) w (goal s me) := by
  have hreaches : (pact s me).Reaches (fun _ => True) p Q := hp
  exact hreaches.waits (fun v => .refl _ v) (fun _ hv _ => ⟨sound_resume hv, trivial⟩)
    fun m r hm hend => ⟨hm, hQ r m.now hend⟩

theorem waits_job {job : Job} (hjob : job.IsAt s) :
    (Job.program job).Waits (P := pact s me) w (goal s me) :=
  waits_of_reaches (reaches_job hjob) fun _ _ h => h

theorem waits_call {slot : Nat} {c : Call} (hc : c.IsAt s) :
    (Job.program (.call slot c)).Waits (P := pact s me) w (goal s me) :=
  waits_of_reaches (reaches_background slot hc) fun r _ hnone job hsome => by
    rw [hnone] at hsome
    cases hsome

/-- A task that is ready makes lawful changes only. -/
theorem Crew.lawful (hcrew : Crew s m w) {t : RunningTask Job Hub} (ht : t ∈ m.tasks)
    (hready : t.rest.isReady m.state = true) :
    t.rest.resumed.Passes (Hub.Lawful s) m.state := by
  have hstate : w.hub = m.state := hcrew.state
  have hkeeps := hcrew.waits t ht w hcrew.inv (.refl _ w) (by rwa [← hstate] at hready)
  have hpasses := (hkeeps.passes (fun _ _ _ => trivial) (fun _ _ hgood => hgood)
    (fun _ hw => World.Inv.lawful hw) fun _ _ hgoal => hgoal.1.inv.lawful).2
  change t.rest.resumed.Passes (Hub.Lawful s) w.hub at hpasses
  rwa [hstate] at hpasses

theorem Crew.wellKept (hcrew : Crew s m w) : WellKept s m where
  order := by
    have hstate : w.hub = m.state := hcrew.state
    have horder : (w.hub.session s).InOrder := hcrew.inv.order
    rwa [hstate] at horder
  lawful _ ht hready := Crew.lawful hcrew ht hready

theorem Crew.goOn (hcrew : Crew s m w) (place : Nat) :
    ∃ w', Crew s (m.advance Job.program place) w' := by
  cases ht : m.tasks[place]? with
  | none =>
    refine ⟨w, ?_⟩
    rwa [Machine.advance, ht]
  | some t =>
    by_cases hready : t.rest.isReady m.state = true
    · obtain ⟨w', hadv⟩ := Company.Crew.advances hcrew (List.mem_of_getElem? ht) hready
        (passes_of_forall (fun _ _ => trivial) _ _) fun _ _ _ h => h.1
      refine ⟨w', Company.Crew.advance hcrew trivial ht hready hadv
        (fun job hjob _ _ => waits_job hjob) fun job hjob => ?_⟩
      obtain ⟨m', -, -, hgoal⟩ := hadv.ended _ hjob
      exact waits_job (hgoal.2 job rfl)
    · refine ⟨w, ?_⟩
      simp only [Machine.advance, ht, if_neg hready]
      exact hcrew

theorem Crew.step (hcrew : Crew s m w) {action : Action} (haction : action.IsAt s) :
    ∃ w', Crew s (Lifecycle.step m action) w' := by
  cases action with
  | goOn place => exact Crew.goOn hcrew place
  | call slot c => exact ⟨w, Company.Crew.start hcrew (waits_call haction)⟩
  | others change =>
    have hspares : Hub.Spares s w.hub (change w.hub) := haction w.hub
    have hinv : (w.move s 0 (change w.hub)).Inv s :=
      (acts_of_spares hspares hcrew.inv).inv hcrew.inv
    refine ⟨w.move s 0 (change w.hub), ?_⟩
    have hnext := Company.Crew.outside hcrew hinv fun _ _ => rely_of_spares hspares
    have hstate : w.hub = m.state := hcrew.state
    rw [Lifecycle.step, Machine.modify, ← hstate]
    exact hnext

theorem Crew.run (hcrew : Crew s m w) {actions : List Action}
    (hactions : ∀ action ∈ actions, action.IsAt s) : ∃ w', Crew s (Lifecycle.run m actions) w' := by
  induction actions generalizing m w with
  | nil => exact ⟨w, hcrew⟩
  | cons action rest ih =>
    rw [List.forall_mem_cons] at hactions
    obtain ⟨w', hcrew'⟩ := Crew.step hcrew hactions.1
    exact ih hcrew' hactions.2

/-- Nobody is at a session yet. -/
theorem crew_ofState {h : Hub} (hs : s < h.sessions.length) (horder : (h.session s).InOrder)
    (hrest : (h.session s).state.IsAtRest) (hlock : h.lock (.lifecycle s) = .free) :
    Crew s (.ofState h) ⟨h, fun _ => 0, True⟩ where
  state := rfl
  inv := ⟨hs, horder, by rw [World.lock, hlock]; exact Lock.valid_free, fun _ => hrest, trivial⟩
  issued _ ht := nomatch ht
  distinct := .nil
  waits _ ht := nomatch ht

/-! ## Every run -/

/-- A new session is in order wherever all tasks wait, and all changes of it are lawful. -/
theorem wellKept_of_run {h : Hub} {serverId : String} {definition : Nat} {scope : ScopeKey}
    {roots : List String} {connection : Connection}
    (hnew : h.sessions[s]? = some (.new serverId definition scope roots connection))
    (hlock : h.lock (.lifecycle s) = .free) {actions : List Action}
    (hactions : ∀ action ∈ actions, action.IsAt s) :
    WellKept s (run (.ofState h) actions) := by
  have hsession : h.session s = .new serverId definition scope roots connection := by
    rw [Hub.session, hnew]
    rfl
  have hcrew := crew_ofState (List.getElem?_eq_some_iff.mp hnew).1
    (by rw [hsession]; exact Session.inOrder_new ..) (by rw [hsession]; exact .inl rfl) hlock
  obtain ⟨w', hcrew'⟩ := Crew.run hcrew hactions
  exact Crew.wellKept hcrew'

/-- The connection is lost while a document is being opened: the session fails with the document
connected. -/
theorem wellKept_of_run_lost :
    let h : Hub := { Hub.new .empty [] ⟨⟨1000⟩, ⟨1000⟩, ⟨0⟩, .notification⟩ with
      sessions := [.new "a" 0 .application [] .factory], launches := [("a", [.opened none none])] }
    let answer : Response :=
      ⟨"2.0", some (.number 1), some (.mkObj [("capabilities", .mkObj [])]), none⟩
    let actions : List Action :=
      .call 0 (.connect 0 ⟨"file:///d", "/d", ⟨"x", []⟩⟩ "t") :: List.replicate 8 (.goOn 0) ++
        [.goOn 1, .goOn 1, .others (Hub.onClient 0 (·.deliver (.number 1) answer)), .goOn 1,
          .goOn 1, .goOn 1, .others (Hub.onClient 0 (·.close)), .goOn 2]
    h.sessions[0]? = some (.new "a" 0 .application [] .factory) ∧
      h.lock (.lifecycle 0) = .free ∧ (∀ action ∈ actions, action.IsAt 0) ∧
      WellKept 0 (run (.ofState h) actions) ∧
      ((run (.ofState h) actions).state.session 0).state = .failed ∧
      ((run (.ofState h) actions).state.session 0).documents ≠ [] := by
  intro h answer actions
  have hactions : ∀ action ∈ actions, action.IsAt 0 := by
    have hothers : ∀ f : Client → Client, Action.IsAt 0 (.others (Hub.onClient 0 f)) :=
      fun _ _ => Hub.spares_of_eq rfl rfl rfl
    simp only [actions, List.cons_append, List.replicate, List.nil_append, List.forall_mem_cons]
    exact ⟨rfl, trivial, trivial, trivial, trivial, trivial, trivial, trivial, trivial, trivial,
      trivial, hothers _, trivial, trivial, trivial, hothers _, trivial, nofun⟩
  have hfailed : (fun x : Session => x.state = .failed ∧ x.documents ≠ [])
      ((run (.ofState h) actions).state.session 0) := by
    decide +kernel
  exact ⟨rfl, rfl, hactions, wellKept_of_run rfl rfl hactions, hfailed⟩

end LanguageHub.Lifecycle
