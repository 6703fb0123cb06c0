import LanguageHub.Proofs.Hub.Keys

/-!
# Sessions that run twice

The roster has one session for each key, but a session that was taken off it may still run: the
watcher stops it only when its turn comes, and whoever has it in hand may start it again. Until
then the next document makes a second session of the same key. So a definition runs twice at most
when it was replaced or removed, which nobody but the watcher answers to.

Laws: as long as there is no news that a definition was replaced or removed, no second session is
ever made for a key of it.
-/

namespace LanguageHub

open Routine

namespace Hub

variable {h h' h'' : Hub} {id : String}

/-- There is news that the definition was replaced or removed. -/
def HasLost (id : String) (h : Hub) : Prop := ∃ e ∈ h.registry.events.retained, e.lost? = some id

instance (id : String) (h : Hub) : Decidable (h.HasLost id) :=
  inferInstanceAs (Decidable (∃ e ∈ h.registry.events.retained, e.lost? = some id))

/-- Every session that was ever made for the definition's id is on the roster, one for each key. -/
structure ListsAll (id : String) (h : Hub) : Prop where
  keys : h.OnePerKey
  listed : ∀ s < h.sessions.length, (h.session s).serverId = id → s ∈ h.roster

/-- No second one was made for any key. -/
theorem ListsAll.eq (hlists : h.ListsAll id) {s s' : Nat} (hs : s < h.sessions.length)
    (hs' : s' < h.sessions.length) (hid : (h.session s).serverId = id) (hsame : h.SameKey s s') :
    s = s' :=
  hlists.keys.eq (hlists.listed s hs hid) (hlists.listed s' hs' (hsame.1.symm.trans hid)) hsame

/-! ## What is done to the roll -/

/-- The sessions stay on the roster when no new one is made. -/
theorem ListsAll.of_remembers (hlists : h.ListsAll id) (hmusters : h.Musters h')
    (hlength : h'.sessions.length = h.sessions.length)
    (hroster : ∀ s ∈ h.roster, (h.session s).serverId = id → s ∈ h'.roster) :
    h'.ListsAll id where
  keys := hmusters.keys hlists.keys
  listed s hs hid := by
    rw [hlength] at hs
    rw [(hmusters.remembers.key hs).1] at hid
    exact hroster s (hlists.listed s hs hid) hid

theorem ListsAll.sessionFor (hlists : h.ListsAll id) (d : ServerDefinition) (path : String) :
    (sessionFor d path h).2.ListsAll id where
  keys := (musters_sessionFor d path h).keys hlists.keys
  listed := by
    have hkey := remembers_sessionFor d path h
    revert hkey
    unfold Hub.sessionFor
    dsimp only
    split
    · exact fun _ => hlists.listed
    · intro hremembers s hs hid
      rw [List.length_append, List.length_singleton] at hs
      rcases Nat.lt_succ_iff_lt_or_eq.mp hs with hold | rfl
      · rw [(hremembers.key hold).1] at hid
        exact List.mem_append_left _ (hlists.listed s hold hid)
      · exact List.mem_append_right _ (List.mem_singleton_self _)

theorem ListsAll.enrolls (hlists : h.ListsAll id) (henrolls : h.Enrolls h') : h'.ListsAll id := by
  refine henrolls.preserves (fun hkept hlists => ?_) (fun document h hlists => ?_) hlists
  · exact hlists.of_remembers hkept.musters hkept.length fun s hs _ => hkept.roster ▸ hs
  · unfold sessionsFor
    generalize h.registry.definitionsFor document.language document.path = ds
    induction ds generalizing h with
    | nil => exact hlists
    | cons d ds ih => exact ih _ (hlists.sessionFor d _)

theorem ListsAll.dropSessions (hlists : h.ListsAll id) {other : String} (hother : other ≠ id) :
    (dropSessions other h).2.ListsAll id := by
  refine hlists.of_remembers (musters_dropSessions other h) rfl fun s hs hid => ?_
  exact List.mem_filter.mpr ⟨hs, bne_iff_ne.mpr fun heq => hother (heq.symm.trans hid)⟩

theorem ListsAll.onRegistry (hlists : h.ListsAll id) (o : Registry.Operation) :
    (h.onRegistry o).ListsAll id :=
  hlists.of_remembers (houses_onRegistry o h).toMusters rfl fun _ hs _ => hs

/-! ## What a leg does to the roll -/

/-- What any task does in one leg: it routes documents and what keeps the roll, after it took off
the sessions of a definition, if there is news that this was replaced or removed. -/
inductive Heeds (h : Hub) : Hub → Prop where
  | enrolls {h' : Hub} (henrolls : h.Enrolls h') : Heeds h h'
  | retires {h' : Hub} {id : String} (hlost : h.HasLost id)
      (henrolls : (Hub.dropSessions id h).2.Enrolls h') : Heeds h h'

theorem ListsAll.heeds (hlists : h.ListsAll id) (hnews : ¬ h.HasLost id) (hheeds : h.Heeds h') :
    h'.ListsAll id := by
  cases hheeds with
  | enrolls henrolls => exact hlists.enrolls henrolls
  | retires hlost henrolls =>
    exact (hlists.dropSessions fun heq => hnews (heq ▸ hlost)).enrolls henrolls

end Hub

/-! ## The watcher -/

variable {h : Hub} {cursor : Nat}

/-- What a leg leaves of a watcher that has seen this many events, and what it did before. -/
structure Heeded (h : Hub) (cursor : Nat) (st : Stage Job Hub (Option Job)) : Prop where
  heeds : h.Heeds st.state
  enrolling : Enrolling st.rest
  ends : st.rest.EndsWith (· = some (.watchRegistry cursor))
  jobs : ∀ job ∈ st.jobs, job.IsOrdinary

theorem heeded_legFrom {p : Program (Option Job)} (hp : Enrolling p)
    (hends : p.EndsWith (· = some (.watchRegistry cursor))) (h' : Hub)
    (hheeds : ∀ {h''}, h'.Enrolls h'' → h.Heeds h'') : Heeded h cursor (p.legFrom h' []) :=
  ⟨hheeds (enrolls_legFrom hp h' []), hp.legFrom h' [], hends.legFrom h' [], hp.jobs h' nofun⟩

theorem Broadcast.mem_of_receive {α : Type} {b : Broadcast α} {a : α} {next : Nat}
    (hitem : b.receive cursor = (.item a, next)) : a ∈ b.retained := by
  unfold receive at hitem
  split at hitem
  · cases hitem
  · split at hitem
    · rename_i a' hat
      obtain rfl : a' = a := Received.item.inj (Prod.mk.inj hitem).1
      exact List.mem_of_getElem? hat
    · cases hitem

/-- Only when it waits does a watcher hear of anything, and then it may have to take sessions off
the roster; whatever it does after that leaves the roll as it is. -/
theorem Attends.heeded {p : Program (Option Job)} (hp : Attends cursor p) (h : Hub) :
    ∃ cursor', Heeded h cursor' (p.resumed.legFrom h []) := by
  cases hp with
  | acts henrolling hends =>
    exact ⟨cursor, heeded_legFrom henrolling.resumed hends.resumed h .enrolls⟩
  | waits =>
    rw [legFrom_watch]
    cases hreceived : h.registry.events.receive cursor with
    | mk received next =>
      refine ⟨next, ?_⟩
      have hquiet : ∀ {p : Program Unit}, Enrolling p →
          Heeded h next ((thenWatch next p).legFrom h []) := fun hp =>
        heeded_legFrom (hp.thenWatch next) (endsWith_thenWatch next _) h .enrolls
      cases received with
      | lagged missed => exact hquiet (serving_pure ()).enrolling
      | empty => exact hquiet (serving_pure ()).enrolling
      | item e =>
        cases he : e.lost? with
        | none => exact hquiet (Hub.serving_follow he).enrolling
        | some id =>
          have hlost : h.HasLost id := ⟨e, Broadcast.mem_of_receive hreceived, he⟩
          have hstop := (Hub.serving_stopAll (h.sessionsOf id)).enrolling
          dsimp only [heed]
          rw [Hub.follow_of_lost he]
          exact heeded_legFrom (hstop.thenWatch next) (endsWith_thenWatch next _)
            (Hub.dropSessions id h).2 (.retires hlost)

namespace Following

open Lifecycle (Action step run)

variable {m : Machine Job Hub} {id : String}

/-- There is one watcher, and all other tasks route documents at most. -/
structure Staffed (m : Machine Job Hub) : Prop where
  tidy : m.Tidy
  begun : watcher < m.nextTask
  placed : ∃ cursor, ∀ t ∈ m.tasks, IsPlaced cursor t

theorem Staffed.goOn (hm : Staffed m) (place : Nat) :
    Staffed (m.advance Job.program place) ∧
      m.state.Heeds (m.advance Job.program place).state := by
  obtain ⟨cursor, hplaced⟩ := hm.placed
  have htidy : (m.advance Job.program place).Tidy := hm.tidy.advance place
  have hbegun : 0 < (m.advance Job.program place).nextTask :=
    Machine.nextTask_advance place hm.begun
  cases ht : m.tasks[place]? with
  | none =>
    rw [Machine.advance_of_none ht]
    exact ⟨hm, .enrolls (.refl _)⟩
  | some t =>
    by_cases hready : t.rest.isReady m.state = true
    · have hmem := hplaced t (List.mem_of_getElem? ht)
      rw [Machine.state_advance ht hready]
      by_cases hid : t.id = watcher
      · rw [IsPlaced, if_pos hid] at hmem
        obtain ⟨cursor', hheeded⟩ := hmem.heeded m.state
        refine ⟨⟨htidy, hbegun, cursor', placed_leg hm.tidy hm.begun ht hready hheeded.jobs
          (fun t' ht' hne => ?_) ?_⟩, hheeded.heeds⟩
        · rw [hid] at hne
          exact (isPlaced_of_ne hne).mpr ((isPlaced_of_ne hne).mp (hplaced t' ht'))
        · rw [hid]
          exact isPlaced_following hheeded.enrolling hheeded.ends
      · have hrest := ((isPlaced_of_ne hid).mp hmem).resumed
        have hjobs := hrest.conducts.jobs m.state (List.forall_mem_nil _)
        refine ⟨⟨htidy, hbegun, cursor, placed_leg hm.tidy hm.begun ht hready hjobs
          (fun t' ht' _ => hplaced t' ht') fun t' ht' => ?_⟩,
          .enrolls (enrolls_legFrom hrest.conducts _ _)⟩
        rw [isPlaced_of_ne (Machine.id_following ht' ▸ hid)]
        exact Machine.IsConducted.following (fun _ => Job.enrolling_program)
          (hrest.legFrom m.state []) t' ht'
    · rw [Machine.advance_of_not_ready ht hready]
      exact ⟨hm, .enrolls (.refl _)⟩

theorem Staffed.call (hm : Staffed m) (slot : Nat) (c : Call) :
    Staffed (m.start Job.program (.call slot c)) where
  tidy := hm.tidy.start _
  begun := Nat.lt_succ_of_lt hm.begun
  placed := by
    obtain ⟨cursor, hplaced⟩ := hm.placed
    refine ⟨cursor, fun t ht => ?_⟩
    rcases List.mem_append.mp ht with hold | hnew
    · exact hplaced t hold
    · have hcall : (Job.call slot c).IsOrdinary := trivial
      rw [List.mem_singleton.mp hnew]
      exact (isPlaced_of_ne (Nat.ne_of_gt hm.begun)).mpr (Job.enrolling_program hcall)

theorem Staffed.step (hm : Staffed m) (action : Action) : Staffed (Lifecycle.step m action) := by
  cases action with
  | goOn place => exact (hm.goOn place).1
  | call slot c => exact hm.call slot c
  | others change => exact ⟨⟨hm.tidy.issued, hm.tidy.distinct⟩, hm.begun, hm.placed⟩

theorem Staffed.listsAll (hm : Staffed m) (hlists : m.state.ListsAll id)
    (hnews : ¬ m.state.HasLost id) {action : Action} (haction : Routing.IsUsual action) :
    (Lifecycle.step m action).state.ListsAll id := by
  cases action with
  | goOn place => exact hlists.heeds hnews (hm.goOn place).2
  | call slot c => exact hlists
  | others change =>
    rcases haction with hserves | ⟨o, rfl⟩ | ⟨d, path, rfl⟩
    · exact hlists.enrolls (hserves m.state).enrolls
    · exact hlists.onRegistry o
    · exact hlists.sessionFor d path

theorem Staffed.run (hm : Staffed m) (hlists : m.state.ListsAll id) {actions : List Action}
    (hactions : ∀ action ∈ actions, Routing.IsUsual action)
    (hnews : ∀ sooner, sooner <+: actions → ¬ (Lifecycle.run m sooner).state.HasLost id) :
    (Lifecycle.run m actions).state.ListsAll id := by
  induction actions generalizing m with
  | nil => exact hlists
  | cons action rest ih =>
    rw [List.forall_mem_cons] at hactions
    exact ih (hm.step action) (hm.listsAll hlists (hnews [] List.nil_prefix) hactions.1) hactions.2
      fun sooner hsooner => hnews (action :: sooner) (List.cons_prefix_cons.mpr ⟨rfl, hsooner⟩)

end Following

end LanguageHub
