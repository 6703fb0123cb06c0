import LanguageHub.Proofs.Hub.Roll
import LanguageHub.Proofs.Lifecycle.Running
import Mathlib.Data.List.Infix

/-!
# Following the registry

The watcher takes the sessions of a definition off the roster when it hears that the definition was
replaced or removed. Until it hears of that the news is ahead of it, so as long as it keeps up with
the registry no session that has to go is forgotten. A watcher that falls behind by more events than
the channel holds never hears of what was lost, and it does not look either.

Laws: once a watcher that kept up has heard everything, every session on the roster runs the
definition that is registered under its id.
-/

namespace LanguageHub

open Routine

namespace Hub

variable {h h' : Hub} {ahead rest : List RegistryEvent} {e : RegistryEvent} {cursor : Nat}

def onRegistry (o : Registry.Operation) (h : Hub) : Hub := { h with registry := o.apply h.registry }

/-- The session runs the definition that is registered under its id. -/
def IsCurrentAt (h : Hub) (s : Nat) : Prop :=
  h.registry.serial? (h.session s).serverId = some (h.session s).definition

/-- So do all sessions on the roster. -/
def IsCurrent (h : Hub) : Prop := ∀ s ∈ h.roster, s < h.sessions.length ∧ h.IsCurrentAt s

instance : Decidable h.IsCurrent :=
  inferInstanceAs (Decidable (∀ s ∈ h.roster, s < h.sessions.length ∧
    h.registry.serial? (h.session s).serverId = some (h.session s).definition))

/-- All sessions on the roster do, but for those of which these events tell that they are to go. -/
def Accounts (ahead : List RegistryEvent) (h : Hub) : Prop :=
  ∀ s ∈ h.roster, s < h.sessions.length ∧
    (h.IsCurrentAt s ∨ ∃ e ∈ ahead, e.lost? = some (h.session s).serverId)

theorem accounts_of_isCurrent (hcurrent : h.IsCurrent) : h.Accounts ahead :=
  fun s hs => ⟨(hcurrent s hs).1, .inl (hcurrent s hs).2⟩

theorem isCurrent_of_accounts (haccounts : h.Accounts []) : h.IsCurrent := by
  intro s hs
  obtain ⟨hthere, hcurrent | ⟨e, he, -⟩⟩ := haccounts s hs
  · exact ⟨hthere, hcurrent⟩
  · cases he

/-! ## Routing -/

theorem KeepsRoll.accounts (hkept : h.KeepsRoll h') (haccounts : h.Accounts ahead) :
    h'.Accounts ahead := by
  intro s hs
  obtain ⟨hthere, hcase⟩ := haccounts s (hkept.roster ▸ hs)
  obtain ⟨hid, hrest⟩ := Prod.mk.inj (hkept.identity s)
  obtain ⟨hdefinition, -⟩ := Prod.mk.inj hrest
  refine ⟨hkept.length ▸ hthere, ?_⟩
  unfold IsCurrentAt at hcase ⊢
  rwa [hkept.registry, hid, hdefinition]

theorem serial?_of_mem_definitionsFor {r : Registry} {language : Language} {path : String}
    {d : ServerDefinition} (hd : d ∈ r.definitionsFor language path) :
    r.serial? d.id = some d.serial := by
  obtain ⟨hfound, -⟩ := List.mem_filter.mp hd
  obtain ⟨id, -, hid⟩ := List.mem_filterMap.mp hfound
  rw [Registry.serial?, Registry.id_of_find? hid, hid]
  rfl

theorem registry_sessionFor (d : ServerDefinition) (path : String) (h : Hub) :
    (sessionFor d path h).2.registry = h.registry := by
  unfold sessionFor
  dsimp only
  split <;> rfl

theorem accounts_sessionFor {d : ServerDefinition} (path : String)
    (hd : h.registry.serial? d.id = some d.serial) (haccounts : h.Accounts ahead) :
    (sessionFor d path h).2.Accounts ahead := by
  unfold sessionFor
  dsimp only
  split
  · exact haccounts
  · intro s hs
    rcases List.mem_append.mp hs with hold | hnew
    · obtain ⟨hthere, hcase⟩ := haccounts s hold
      refine ⟨by simp only [List.length_append]; omega, ?_⟩
      unfold IsCurrentAt session at hcase ⊢
      rwa [List.getElem?_append_left hthere]
    · obtain rfl := List.mem_singleton.mp hnew
      refine ⟨by simp, .inl ?_⟩
      simp only [IsCurrentAt, session, List.getElem?_concat_length, Option.getD_some]
      exact hd

theorem accounts_sessionsForAll (path : String) {ds : List ServerDefinition}
    (hds : ∀ d ∈ ds, h.registry.serial? d.id = some d.serial) (haccounts : h.Accounts ahead) :
    (sessionsForAll path ds h).2.Accounts ahead ∧
      (sessionsForAll path ds h).2.registry = h.registry := by
  induction ds generalizing h with
  | nil => exact ⟨haccounts, rfl⟩
  | cons d ds ih =>
    rw [List.forall_mem_cons] at hds
    have hregistry := registry_sessionFor d path h
    obtain ⟨hrest, hsame⟩ := ih (h := (sessionFor d path h).2) (hregistry ▸ hds.2)
      (accounts_sessionFor path hds.1 haccounts)
    exact ⟨hrest, hsame.trans hregistry⟩

theorem Enrolls.registry (henrolls : h.Enrolls h') : h'.registry = h.registry := by
  induction henrolls with
  | keeps hkept => exact hkept.registry
  | routes document h =>
    unfold sessionsFor
    generalize h.registry.definitionsFor document.language document.path = ds
    induction ds generalizing h with
    | nil => rfl
    | cons d ds ih => exact (ih _).trans (registry_sessionFor d _ h)
  | trans _ _ ih ih' => exact ih'.trans ih

theorem Enrolls.accounts (henrolls : h.Enrolls h') (haccounts : h.Accounts ahead) :
    h'.Accounts ahead :=
  henrolls.preserves KeepsRoll.accounts (fun _ _ haccounts =>
    (accounts_sessionsForAll _ (fun _ => serial?_of_mem_definitionsFor) haccounts).1) haccounts

/-! ## What is heard -/

theorem Accounts.tail (haccounts : h.Accounts (e :: rest)) (he : e.lost? = none) :
    h.Accounts rest := by
  intro s hs
  obtain ⟨hthere, hcurrent | ⟨e', he', hlost⟩⟩ := haccounts s hs
  · exact ⟨hthere, .inl hcurrent⟩
  · rcases List.mem_cons.mp he' with rfl | hrest
    · cases he.symm.trans hlost
    · exact ⟨hthere, .inr ⟨e', hrest, hlost⟩⟩

theorem accounts_dropSessions {id : String} (haccounts : h.Accounts (e :: rest))
    (he : e.lost? = some id) : (dropSessions id h).2.Accounts rest := by
  intro s hs
  obtain ⟨hmem, hother⟩ := List.mem_filter.mp hs
  obtain ⟨hthere, hcurrent | ⟨e', he', hlost⟩⟩ := haccounts s hmem
  · exact ⟨hthere, .inl hcurrent⟩
  · rcases List.mem_cons.mp he' with rfl | hrest
    · obtain rfl := Option.some.inj (he.symm.trans hlost)
      simp at hother
    · exact ⟨hthere, .inr ⟨e', hrest, hlost⟩⟩

/-- Of all that a watcher that has seen this many events has yet to do the news is ahead of it,
unless it has lost some. -/
structure SeenUpTo (cursor : Nat) (h : Hub) : Prop where
  sound : h.registry.events.IsSound
  cursor_le : cursor ≤ h.registry.events.sent
  accounts : h.registry.events.oldest ≤ cursor → h.Accounts (h.registry.events.ahead cursor)

theorem SeenUpTo.enrolls (hseen : h.SeenUpTo cursor) (henrolls : h.Enrolls h') :
    h'.SeenUpTo cursor := by
  obtain ⟨hsound, hcursor, haccounts⟩ := hseen
  rw [← henrolls.registry] at hsound hcursor haccounts
  exact ⟨hsound, hcursor, fun hkept => henrolls.accounts (haccounts hkept)⟩

theorem SeenUpTo.onRegistry (hseen : h.SeenUpTo cursor) (o : Registry.Operation) :
    (h.onRegistry o).SeenUpTo cursor := by
  obtain ⟨announced, hevents, hserials⟩ := Registry.becomes_apply h.registry o
  have hevents' : (h.onRegistry o).registry.events =
      announced.elim h.registry.events h.registry.events.send := hevents
  -- A session that was current still is, or what was announced tells that it is to go.
  have hkeeps : ∀ {ahead ahead' : List RegistryEvent}, h.Accounts ahead →
      (∀ e ∈ ahead, e ∈ ahead') → (∀ e, announced = some e → e ∈ ahead') →
      (h.onRegistry o).Accounts ahead' := by
    intro ahead ahead' haccounts hold hnew s hs
    obtain ⟨hthere, hcurrent | ⟨e, he, hlost⟩⟩ := haccounts s hs
    · refine ⟨hthere, (hserials _ _ hcurrent).imp_right fun hlost => ?_⟩
      obtain ⟨e, he, hid⟩ := Option.bind_eq_some_iff.mp hlost
      exact ⟨e, hnew e he, hid⟩
    · exact ⟨hthere, .inr ⟨e, hold e he, hlost⟩⟩
  cases announced with
  | none =>
    refine ⟨hevents' ▸ hseen.sound, hevents' ▸ hseen.cursor_le, fun hkept => ?_⟩
    rw [hevents'] at hkept ⊢
    exact hkeeps (hseen.accounts hkept) (fun _ he => he) nofun
  | some e =>
    refine ⟨hevents' ▸ hseen.sound.send e, hevents' ▸ Nat.le_succ_of_le hseen.cursor_le,
      fun hkept => ?_⟩
    rw [hevents'] at hkept ⊢
    have hold := Nat.le_trans (Broadcast.oldest_le_send hseen.sound e) hkept
    have hahead := Broadcast.ahead_send hseen.sound hseen.cursor_le hkept
    exact hkeeps (hseen.accounts hold)
      (fun _ he => by rw [Option.elim_some, hahead]; exact List.mem_append_left _ he)
      (fun _ he => by
        obtain rfl := Option.some.inj he
        rw [Option.elim_some, hahead]
        exact List.mem_append_right _ (List.mem_singleton_self _))

end Hub

/-! ## The watcher -/

variable {h : Hub} {cursor : Nat}

/-- What is left of a watcher that has seen this many events: it waits for the next one, or it does
what the last one asks for. -/
inductive Attends (cursor : Nat) : Program (Option Job) → Prop where
  | waits : Attends cursor (Job.program (.watchRegistry cursor))
  | acts {p : Program (Option Job)} (henrolling : Enrolling p)
      (hends : p.EndsWith (· = some (.watchRegistry cursor))) : Attends cursor p

/-- What a watcher that has seen this many events does before it waits again. -/
def thenWatch (cursor : Nat) (p : Program Unit) : Program (Option Job) :=
  p.bind fun _ => done (some (.watchRegistry cursor))

theorem Enrolling.thenWatch {p : Program Unit} (hp : Enrolling p) (cursor : Nat) :
    Enrolling (thenWatch cursor p) :=
  hp.bind fun _ => trivial

theorem endsWith_thenWatch (cursor : Nat) (p : Program Unit) :
    (thenWatch cursor p).EndsWith (· = some (.watchRegistry cursor)) :=
  endsWith_bind fun _ => rfl

theorem enrolls_legFrom {α : Type} {p : Program α} (hp : Enrolling p) (h : Hub) (jobs : List Job) :
    h.Enrolls (p.legFrom h jobs).state := by
  have hkept : p.Preserves h.Enrolls := hp.preserves fun _ _ hmove hsofar => hsofar.trans hmove
  exact hkept.kept_legFrom (.refl h) jobs

def heed : Received RegistryEvent → Program Unit
  | .item e => Hub.follow e
  | .lagged _ | .empty => pure ()

theorem legFrom_watch (cursor : Nat) (h : Hub) :
    (Job.program (.watchRegistry cursor)).resumed.legFrom h [] =
      (thenWatch (h.registry.events.receive cursor).2
        (heed (h.registry.events.receive cursor).1)).legFrom h [] := by
  unfold Job.program Hub.followNext
  simp only [Routine.waitUntil, Routine.get, Bind.bind, Routine.bind, resumed, legFrom_act, id_eq]
  obtain ⟨received, next⟩ := h.registry.events.receive cursor
  cases received with
  | item e =>
    exact congrArg (fun p : Program (Option Job) => p.legFrom h []) (Routine.bind_assoc ..)
  | lagged missed => rfl
  | empty => rfl

/-- What the leg leaves of a watcher that has seen this many events, in which state. -/
structure Watched (cursor : Nat) (st : Stage Job Hub (Option Job)) : Prop where
  seen : st.state.SeenUpTo cursor
  enrolling : Enrolling st.rest
  ends : st.rest.EndsWith (· = some (.watchRegistry cursor))
  jobs : ∀ job ∈ st.jobs, job.IsOrdinary

theorem Hub.SeenUpTo.watched (hseen : h.SeenUpTo cursor) {p : Program (Option Job)}
    (hp : Enrolling p) (hends : p.EndsWith (· = some (.watchRegistry cursor))) :
    Watched cursor (p.legFrom h []) :=
  ⟨hseen.enrolls (enrolls_legFrom hp h []), hp.legFrom h [], hends.legFrom h [], hp.jobs h nofun⟩

/-- After its leg the watcher has seen one event more, and the roster is as that asks for. -/
theorem watched_watch (hseen : h.SeenUpTo cursor) (hkept : h.registry.events.oldest ≤ cursor)
    (hready : (Job.program (.watchRegistry cursor)).isReady h = true) :
    Watched (cursor + 1) ((Job.program (.watchRegistry cursor)).resumed.legFrom h []) := by
  have haccounts := hseen.accounts hkept
  have hreceive := Broadcast.receive_of_kept hkept
  have hsucc := Broadcast.ahead_succ hkept
  have hnews : ((h.registry.events.receive cursor).1 != .empty) = true := hready
  cases hahead : h.registry.events.ahead cursor with
  | nil =>
    rw [hahead] at hreceive
    rw [hreceive] at hnews
    simp at hnews
  | cons e rest =>
    rw [hahead] at hreceive hsucc haccounts
    have hsent : cursor + 1 ≤ h.registry.events.sent :=
      Broadcast.lt_sent_of_ahead hseen.sound hkept hahead
    rw [legFrom_watch, hreceive, heed]
    cases he : e.lost? with
    | none =>
      have hseen' : h.SeenUpTo (cursor + 1) := by
        refine ⟨hseen.sound, hsent, fun _ => ?_⟩
        rw [hsucc]
        exact haccounts.tail he
      exact hseen'.watched ((Hub.serving_follow he).enrolling.thenWatch _) (endsWith_thenWatch _ _)
    | some id =>
      have hseen' : (Hub.dropSessions id h).2.SeenUpTo (cursor + 1) := by
        refine ⟨hseen.sound, hsent, fun _ => ?_⟩
        change Hub.Accounts (h.registry.events.ahead (cursor + 1)) _
        rw [hsucc]
        exact Hub.accounts_dropSessions haccounts he
      rw [Hub.follow_of_lost he]
      exact hseen'.watched ((Hub.serving_stopAll (h.sessionsOf id)).enrolling.thenWatch _)
        (endsWith_thenWatch _ _)

/-! ### How much it has seen -/

/-- A hub whose registry sent so many events that are all gone. -/
def Hub.silentAfter (n : Nat) : Hub :=
  .new { Registry.empty with events := ⟨Registry.channelCapacity, n, []⟩ } [] default

theorem receive_silentAfter (n cursor : Nat) :
    (Hub.silentAfter n).registry.events.receive cursor =
      if cursor < n then (.lagged (n - cursor), n) else (.empty, cursor) := rfl

theorem cursor_inj {cursor cursor' : Nat}
    (h : Job.program (.watchRegistry cursor) = Job.program (.watchRegistry cursor')) :
    cursor = cursor' := by
  have hready : ∀ n, (((Hub.silentAfter n).registry.events.receive cursor).1 != .empty) =
      (((Hub.silentAfter n).registry.events.receive cursor').1 != .empty) := fun n =>
    congrArg (fun p => p.isReady (Hub.silentAfter n)) h
  have hless : ∀ n, cursor < n ↔ cursor' < n := by
    intro n
    have hn := hready n
    simp only [receive_silentAfter] at hn
    by_cases h₁ : cursor < n <;> by_cases h₂ : cursor' < n <;> simp [h₁, h₂] at hn ⊢
  have hle := (hless cursor').not
  have hge := (hless cursor).not
  omega

/-- Whoever goes on as a watcher is not one that waits. -/
theorem ne_watch_of_endsWith {p : Program (Option Job)}
    (hends : p.EndsWith (· = some (.watchRegistry cursor))) (cursor' : Nat) :
    p ≠ Job.program (.watchRegistry cursor') := by
  rintro rfl
  -- Where all is gone a watcher that waits would go on from the end, wherever that is.
  have hend : ∀ n, cursor' < n → n = cursor := by
    intro n hn
    have hlast := hends.resumed.legFrom (Hub.silentAfter n) []
    rw [legFrom_watch, receive_silentAfter, if_pos hn] at hlast
    exact Job.watchRegistry.inj (Option.some.inj hlast)
  have hone := hend (cursor' + 1) (by omega)
  have htwo := hend (cursor' + 2) (by omega)
  omega

theorem Attends.cursor_eq {p : Program (Option Job)} (hp : Attends cursor p) {cursor' : Nat}
    (hwaits : p = Job.program (.watchRegistry cursor')) : cursor = cursor' := by
  cases hp with
  | waits => exact cursor_inj hwaits
  | acts henrolling hends => exact absurd hwaits (ne_watch_of_endsWith hends cursor')

/-- Unless it is behind when it receives, the watcher misses nothing in its leg. -/
theorem Attends.leg {p : Program (Option Job)} (hp : Attends cursor p) (hseen : h.SeenUpTo cursor)
    (hkept : ∀ cursor', p = Job.program (.watchRegistry cursor') →
      h.registry.events.oldest ≤ cursor')
    (hready : p.isReady h = true) : ∃ cursor', Watched cursor' (p.resumed.legFrom h []) := by
  cases hp with
  | waits => exact ⟨cursor + 1, watched_watch hseen (hkept cursor rfl) hready⟩
  | acts henrolling hends => exact ⟨cursor, hseen.watched henrolling.resumed hends.resumed⟩

/-! ## Every run -/

namespace Following

open Lifecycle (Action step run)

def watcher : Nat := 0

/-- A watcher is there that sees what happens from now on. -/
def begin (h : Hub) : Machine Job Hub :=
  (Machine.ofState h).start Job.program (.watchRegistry h.registry.events.sent)

/-- While the watcher waits, nothing is lost that it has not seen. -/
def KeepsUp (m : Machine Job Hub) : Prop :=
  ∀ t ∈ m.tasks, t.id = watcher → ∀ cursor, t.rest = Job.program (.watchRegistry cursor) →
    m.state.registry.events.oldest ≤ cursor

/-- The watcher waits and has seen everything. -/
def HasSeenAll (m : Machine Job Hub) : Prop :=
  ∃ t ∈ m.tasks, t.id = watcher ∧
    t.rest = Job.program (.watchRegistry m.state.registry.events.sent)

/-- Any call may come, anything may be done to the registry, and the others do what the tasks of
calls may do as well. -/
def IsUsual : Action → Prop
  | .goOn _ | .call _ _ => True
  | .others change => (∀ h, Hub.Enrolls h (change h)) ∨ ∃ o, change = Hub.onRegistry o

/-- A task is where it may be when the watcher has seen this many events. -/
def IsPlaced (cursor : Nat) (t : RunningTask Job Hub) : Prop :=
  if t.id = watcher then Attends cursor t.rest
  else t.rest.IsConducted Hub.Enrolls Job.IsOrdinary

/-- The watcher has seen this many events, and lost none of those that count. -/
structure Follows (cursor : Nat) (m : Machine Job Hub) : Prop where
  tidy : m.Tidy
  begun : watcher < m.nextTask
  seen : m.state.SeenUpTo cursor
  placed : ∀ t ∈ m.tasks, IsPlaced cursor t

variable {m : Machine Job Hub}

theorem isPlaced_of_ne {t : RunningTask Job Hub} (hid : t.id ≠ watcher) :
    IsPlaced cursor t ↔ t.rest.IsConducted Hub.Enrolls Job.IsOrdinary := by
  rw [IsPlaced, if_neg hid]

theorem isPlaced_following {p : Program (Option Job)} (hp : Enrolling p)
    (hends : p.EndsWith (· = some (.watchRegistry cursor))) :
    ∀ t ∈ Machine.following Job.program watcher p, IsPlaced cursor t := by
  intro t ht
  rw [IsPlaced, if_pos (Machine.id_following ht)]
  unfold Machine.following at ht
  split at ht
  · cases ht
  · rename_i job
    rw [List.mem_singleton.mp ht]
    obtain rfl : job = .watchRegistry cursor := Option.some.inj hends
    exact .waits
  · rw [List.mem_singleton.mp ht]
    exact .acts hp hends

theorem follows_begin (hsound : h.registry.events.IsSound) (hcurrent : h.IsCurrent) :
    Follows h.registry.events.sent (begin h) where
  tidy := (Machine.tidy_ofState h).start _
  begun := Nat.zero_lt_one
  seen := ⟨hsound, Nat.le_refl _, fun _ => Hub.accounts_of_isCurrent hcurrent⟩
  placed t ht := by
    rw [List.mem_singleton.mp ht]
    exact .waits

/-- Where all tasks are after a leg of one of them. -/
theorem placed_leg {place : Nat} {t : RunningTask Job Hub} {cursor' : Nat} (htidy : m.Tidy)
    (hbegun : watcher < m.nextTask) (ht : m.tasks[place]? = some t)
    (hready : t.rest.isReady m.state = true)
    (hjobs : ∀ job ∈ (t.rest.resumed.legFrom m.state []).jobs, job.IsOrdinary)
    (hothers : ∀ t' ∈ m.tasks, t'.id ≠ t.id → IsPlaced cursor' t')
    (hnext : ∀ t' ∈ Machine.following Job.program t.id (t.rest.resumed.legFrom m.state []).rest,
      IsPlaced cursor' t') :
    ∀ t' ∈ (m.advance Job.program place).tasks, IsPlaced cursor' t' :=
  htidy.forall_mem_advance ht hready hothers hnext fun job hjob _ hid =>
    (isPlaced_of_ne (Nat.ne_of_gt (Nat.lt_of_lt_of_le hbegun hid))).mpr
      (Job.enrolling_program (hjobs job hjob))

theorem Follows.leg {place : Nat} {t : RunningTask Job Hub} {cursor' : Nat} (hm : Follows cursor m)
    (ht : m.tasks[place]? = some t) (hready : t.rest.isReady m.state = true)
    (hseen : (t.rest.resumed.legFrom m.state []).state.SeenUpTo cursor')
    (hjobs : ∀ job ∈ (t.rest.resumed.legFrom m.state []).jobs, job.IsOrdinary)
    (hothers : ∀ t' ∈ m.tasks, t'.id ≠ t.id → IsPlaced cursor' t')
    (hnext : ∀ t' ∈ Machine.following Job.program t.id (t.rest.resumed.legFrom m.state []).rest,
      IsPlaced cursor' t') :
    Follows cursor' (m.advance Job.program place) where
  tidy := hm.tidy.advance place
  begun := Machine.nextTask_advance place hm.begun
  seen := by rwa [Machine.state_advance ht hready]
  placed := placed_leg hm.tidy hm.begun ht hready hjobs hothers hnext

theorem Follows.goOn (hm : Follows cursor m) (hkeeps : KeepsUp m) (place : Nat) :
    ∃ cursor', Follows cursor' (m.advance Job.program place) := by
  cases ht : m.tasks[place]? with
  | none => exact ⟨cursor, by rwa [Machine.advance_of_none ht]⟩
  | some t =>
    have hmem := List.mem_of_getElem? ht
    by_cases hready : t.rest.isReady m.state = true
    · have hplaced := hm.placed t hmem
      by_cases hid : t.id = watcher
      · -- The watcher may have seen one event more; for the others the number means nothing.
        rw [IsPlaced, if_pos hid] at hplaced
        obtain ⟨cursor', hst⟩ := hplaced.leg hm.seen (hkeeps t hmem hid) hready
        refine ⟨cursor', hm.leg ht hready hst.seen hst.jobs (fun t' ht' hne => ?_) ?_⟩
        · rw [hid] at hne
          exact (isPlaced_of_ne hne).mpr ((isPlaced_of_ne hne).mp (hm.placed t' ht'))
        · rw [hid]
          exact isPlaced_following hst.enrolling hst.ends
      · have hrest := ((isPlaced_of_ne hid).mp hplaced).resumed
        refine ⟨cursor, hm.leg ht hready (hm.seen.enrolls (enrolls_legFrom hrest.conducts _ _))
          (hrest.conducts.jobs _ nofun) (fun t' ht' _ => hm.placed t' ht') fun t' ht' => ?_⟩
        rw [isPlaced_of_ne (Machine.id_following ht' ▸ hid)]
        exact Machine.IsConducted.following (fun _ => Job.enrolling_program)
          (hrest.legFrom m.state []) t' ht'
    · exact ⟨cursor, by rwa [Machine.advance_of_not_ready ht hready]⟩

/-- What happens next leaves a watcher that keeps up with no more to do than is ahead of it. -/
theorem Follows.step (hm : Follows cursor m) (hkeeps : KeepsUp m) {action : Action}
    (haction : IsUsual action) : ∃ cursor', Follows cursor' (Lifecycle.step m action) := by
  cases action with
  | goOn place => exact hm.goOn hkeeps place
  | call slot c =>
    refine ⟨cursor, hm.tidy.start _, Nat.lt_succ_of_lt hm.begun, hm.seen, fun t ht => ?_⟩
    rcases List.mem_append.mp ht with hold | hnew
    · exact hm.placed t hold
    · have hcall : (Job.call slot c).IsOrdinary := trivial
      rw [List.mem_singleton.mp hnew]
      exact (isPlaced_of_ne (Nat.ne_of_gt hm.begun)).mpr (Job.enrolling_program hcall)
  | others change =>
    refine ⟨cursor, ⟨hm.tidy.issued, hm.tidy.distinct⟩, hm.begun, ?_, hm.placed⟩
    rcases haction with henrolls | ⟨o, rfl⟩
    · exact hm.seen.enrolls (henrolls m.state)
    · exact hm.seen.onRegistry o

theorem Follows.run (hm : Follows cursor m) {actions : List Action}
    (hactions : ∀ action ∈ actions, IsUsual action)
    (hkeeps : ∀ sooner, sooner <+: actions → KeepsUp (Lifecycle.run m sooner)) :
    ∃ cursor', Follows cursor' (Lifecycle.run m actions) := by
  induction actions generalizing m cursor with
  | nil => exact ⟨cursor, hm⟩
  | cons action rest ih =>
    rw [List.forall_mem_cons] at hactions
    obtain ⟨cursor', hm'⟩ := hm.step (hkeeps [] (List.nil_prefix)) hactions.1
    exact ih hm' hactions.2 fun sooner hsooner =>
      hkeeps (action :: sooner) (List.cons_prefix_cons.mpr ⟨rfl, hsooner⟩)

/-- When a watcher that always kept up has seen everything, all sessions on the roster run the
definitions that are registered under their ids: none is left of a definition that was removed or
replaced. -/
theorem current_of_run (hsound : h.registry.events.IsSound) (hcurrent : h.IsCurrent)
    {actions : List Action} (hactions : ∀ action ∈ actions, IsUsual action)
    (hkeeps : ∀ sooner, sooner <+: actions → KeepsUp (run (begin h) sooner))
    (hall : HasSeenAll (run (begin h) actions)) : (run (begin h) actions).state.IsCurrent := by
  obtain ⟨cursor, hfollows⟩ := (follows_begin hsound hcurrent).run hactions hkeeps
  obtain ⟨t, ht, hid, hwaits⟩ := hall
  have hplaced := hfollows.placed t ht
  rw [IsPlaced, if_pos hid] at hplaced
  have hcursor := hplaced.cursor_eq hwaits
  have haccounts := hfollows.seen.accounts (hcursor ▸ Nat.sub_le _ _)
  rw [hcursor, Broadcast.ahead_sent hfollows.seen.sound] at haccounts
  exact Hub.isCurrent_of_accounts haccounts

/-- As long as nothing is pushed out of the channel the watcher keeps up. -/
theorem keepsUp_of_whole {actions : List Action} (hwhole : ∀ sooner ∈ actions.inits,
      (run (begin h) sooner).state.registry.events.oldest = 0) :
    ∀ sooner, sooner <+: actions → KeepsUp (run (begin h) sooner) := by
  intro sooner hsooner _ _ _ _ _
  rw [hwhole sooner ((List.mem_inits ..).mpr hsooner)]
  exact Nat.zero_le _

/-- With its leg at this place the watcher comes to wait, and has seen everything then. -/
def CatchesUp (m : Machine Job Hub) (place : Nat) : Bool :=
  m.tasks[place]?.any fun t => t.id == watcher && t.rest.isReady m.state &&
    match (t.rest.resumed.legFrom m.state []).result? with
    | some (some (.watchRegistry cursor)) =>
      cursor == (m.advance Job.program place).state.registry.events.sent
    | _ => false

theorem hasSeenAll_of_catchesUp {actions : List Action} {place : Nat}
    (hcatches : CatchesUp (run m actions) place = true) :
    HasSeenAll (run m (actions ++ [.goOn place])) := by
  rw [Lifecycle.run_append]
  change HasSeenAll ((run m actions).advance Job.program place)
  generalize run m actions = m at hcatches
  cases ht : m.tasks[place]? with
  | none => simp [CatchesUp, ht] at hcatches
  | some t =>
    simp only [CatchesUp, ht, Option.any_some, Bool.and_eq_true, beq_iff_eq] at hcatches
    obtain ⟨⟨hid, hready⟩, hdone⟩ := hcatches
    split at hdone
    · rename_i cursor hresult
      have hrest := Stage.rest_of_result? hresult
      refine ⟨⟨t.id, Job.program (.watchRegistry cursor)⟩, ?_, hid, by rw [beq_iff_eq.mp hdone]⟩
      rw [Machine.advance_of_ready ht hready]
      refine Machine.mem_startAll _ (List.mem_append_right _ ?_)
      rw [hrest]
      exact List.mem_singleton_self _
    · cases hdone

/-- A definition is registered again under its id, and its session goes; the next document gets a
new one. -/
theorem current_of_run_replaced :
    let d : ServerDefinition := .new "py" .factory
    let operations : List Registry.Operation := [.add d, .associate ⟨"python", []⟩ "py" none none]
    let h := { Hub.new (operations.foldl Registry.Operation.apply .empty) ["/w"] default with
      sessions := [.new "py" 1 .application [] .factory]
      roster := [0] }
    let actions : List Action := [.others (Hub.onRegistry (.add d)), .goOn 0, .goOn 0,
      .call 0 (.connectDocument ⟨"file:///w/a", "/w/a", ⟨"python", []⟩⟩ "t"), .goOn 1]
    let m := run (begin h) actions
    m.state.IsCurrent ∧ m.state.roster = [1] := by
  refine ⟨current_of_run (by decide +kernel : _ ≤ _) (by decide +kernel) ?_
    (keepsUp_of_whole (by decide +kernel)) ⟨_, List.Mem.head _, rfl, rfl⟩, by decide +kernel⟩
  simp only [List.forall_mem_cons, IsUsual]
  exact ⟨.inr ⟨_, rfl⟩, trivial, trivial, trivial, trivial, nofun⟩

/-- A definition is disabled, and before the watcher gets to it another one changes once more often
than the channel keeps. The watcher receives all that is left and waits; the session of the disabled
definition runs on. -/
theorem forgotten_of_lag :
    let operations : List Registry.Operation :=
      [.add (.new "py" .factory), .add (.new "rs" .factory)]
    let h := { Hub.new (operations.foldl Registry.Operation.apply .empty) ["/w"] default with
      clients := [.new "py" 0 [] ⟨1000⟩ 0]
      links := [⟨"py", "", .fresh⟩]
      sessions := [{ Session.new "py" 1 .application [] .factory with
        state := .started, running := some ⟨0, default⟩ }]
      roster := [0] }
    let changes : List Registry.Operation := .update "py" (.ofEnabled false) ::
      (List.range Registry.channelCapacity).map fun n =>
        .update "rs" ⟨some (.ofNat n), none, none⟩
    let actions : List Action := changes.map (fun o => .others (Hub.onRegistry o)) ++
      List.replicate (changes.length + 1) (.goOn watcher)
    let m := run (begin h) actions
    m.tasks.map (·.id) = [watcher] ∧ m.tasks.all (fun t => !t.rest.isReady m.state) = true ∧
      (m.state.registry.find? "py").map (·.enabled) = some false ∧ m.state.roster = [0] ∧
      (m.state.session 0).serverId = "py" ∧ (m.state.session 0).state = .started := by
  decide +kernel

end Following

end LanguageHub
