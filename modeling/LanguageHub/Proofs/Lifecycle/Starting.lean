import LanguageHub.Proofs.Lifecycle.Reaching

/-!
# Starts and stops keep order

A start leads a session that is not started, or was stopped, to its started state or lets it
fail; a stop leads it to its stopped state. Both need the session's turn. Its connection may be
taken down at any time, unless the session is started then.
-/

namespace LanguageHub

namespace ServerState

theorem leadsTo_irrefl (state : ServerState) : state.leadsTo state = false := by
  cases state <;> rfl

/-- The session was started, whether or not it is still. -/
def HasBegun (state : ServerState) : Prop := state = .started ∨ state = .failed

/-- The session may be started. -/
def IsIdle (state : ServerState) : Prop := state = .notStarted ∨ state = .stopped

theorem HasBegun.isAtRest {state : ServerState} (h : state.HasBegun) : state.IsAtRest := by
  rcases h with h | h
  · exact .inr (.inl h)
  · exact .inr (.inr (.inr h))

theorem IsIdle.isAtRest {state : ServerState} (h : state.IsIdle) : state.IsAtRest := by
  rcases h with h | h
  · exact .inl h
  · exact .inr (.inr (.inl h))

theorem IsAtRest.isIdle_or {state : ServerState} (h : state.IsAtRest) :
    state.IsIdle ∨ state.HasBegun := by
  rcases h with h | h | h | h
  · exact .inl (.inl h)
  · exact .inr (.inl h)
  · exact .inl (.inr h)
  · exact .inr (.inr h)

end ServerState

namespace Lifecycle

open Routine Pact Session

variable {s me t : Nat} {α : Type} {F F' : Session → Prop} {h : Hub} {x : Session}

theorem steady_hasBegun : Steady fun x => x.state.HasBegun := fun _ _ hmeddles _ hx => by
  rcases hmeddles.state with ⟨hstate, -⟩ | ⟨-, hfailed⟩
  · rwa [hstate]
  · exact .inr hfailed

/-! ## Single steps -/

theorem steps_onSession {g : Session → Session} (hs : s < h.sessions.length)
    (hstate : (g (h.session s)).state = (h.session s).state) (horder : (g (h.session s)).InOrder)
    (hfact : F' (g (h.session s))) : Steps s F' h (h.onSession s g) := by
  have hsession := Hub.session_onSession s g hs
  refine ⟨rfl, ?_, ?_, Hub.lawful_of_eq ?_ rfl, ?_⟩
  · simpa [Hub.onSession] using hs
  · rwa [hsession]
  · rwa [hsession]
  · rwa [hsession]

/-- Anybody may change a session in what whoever has its turn does not rely on. -/
theorem acts_onSession {g : Session → Session} {w : World} (hw : w.Inv s)
    (hmeddles : Meddles (w.session s) (g (w.session s)))
    (hstate : (g (w.session s)).state = (w.session s).state)
    (horder : (g (w.session s)).InOrder) : Acts s me w (w.hub.onSession s g) := by
  have hsteps : Steps s (fun _ => True) w.hub (w.hub.onSession s g) :=
    steps_onSession hw.known hstate horder trivial
  refine hsteps.meddles ?_
  rw [Hub.session_onSession s g hw.known]
  exact hmeddles

theorem session_enter (state : ServerState) (hs : s < h.sessions.length) :
    (enter s state h).session s = { h.session s with state } := by
  unfold enter
  dsimp only
  split
  · rename_i heq
    rw [← heq]
  · exact Hub.session_onSession s _ hs

theorem enter_of_leadsTo {state : ServerState} (hleads : (h.session s).state.leadsTo state = true) :
    enter s state h = (h.onSession s fun session => { session with state }).emit
      (.stateChanged (h.session s).serverId (h.session s).scope.shown state.name) :=
  if_neg fun heq => by
    rw [heq, ServerState.leadsTo_irrefl] at hleads
    cases hleads

/-- Another state is entered and reported. -/
theorem steps_enter {state : ServerState} (hs : s < h.sessions.length)
    (hleads : (h.session s).state.leadsTo state = true)
    (horder : ({ h.session s with state } : Session).InOrder)
    (hfact : F' { h.session s with state }) : Steps s F' h (enter s state h) := by
  have hafter := session_enter state hs
  have henter := enter_of_leadsTo hleads
  refine ⟨?_, ?_, ?_, .inr ⟨?_, ?_⟩, ?_⟩
  · rw [henter]
    rfl
  · rw [henter]
    simpa [Hub.emit, Hub.onSession] using hs
  · rwa [hafter]
  · rwa [hafter]
  · rw [hafter, henter]
    exact .state _ state .nothing
  · rwa [hafter]

theorem Steps.emit {h' : Hub} {k : EventKind} (hsteps : Steps s F' h h')
    (hk : ∀ server scope state, k ≠ .stateChanged server scope state) :
    Steps s F' h (h'.emit k) where
  lock := hsteps.lock
  known := hsteps.known
  order := hsteps.order
  lawful := by
    rcases hsteps.lawful with ⟨hstate, hreports⟩ | ⟨hleads, hreports⟩
    · exact .inl ⟨hstate, .other _ k hreports (hk _ _)⟩
    · exact .inr ⟨hleads, .other _ k hreports (hk _ _)⟩
  fact := hsteps.fact

/-- A session that may fail fails with a reason, and this is reported once. -/
theorem steps_fail {e : HubError} (hs : s < h.sessions.length)
    (hleads : (h.session s).state.leadsTo .failed = true)
    (hfact : ∀ y : Session, y.state = .failed → F' y) : Steps s F' h (fail s e h) := by
  let h₁ := h.onSession s fun session => { session with lastError := some e.message }
  have hsession₁ : h₁.session s = { h.session s with lastError := some e.message } :=
    Hub.session_onSession s _ hs
  have hsteps₁ : Steps s F' h₁ (enter s .failed h₁) := by
    refine steps_enter ?_ ?_ ?_ (hfact _ rfl)
    · simpa [h₁, Hub.onSession] using hs
    · rw [hsession₁]
      exact hleads
    · rw [hsession₁]
      exact ⟨by simp, fun _ => rfl, by simp, fun _ => .inr (.inr rfl)⟩
  have hlawful : Hub.Lawful s h (enter s .failed h₁) := by
    have hlawful₁ := hsteps₁.lawful
    unfold Hub.Lawful Hub.Reports at hlawful₁ ⊢
    rw [hsession₁] at hlawful₁
    exact hlawful₁
  have hsteps : Steps s F' h (enter s .failed h₁) :=
    ⟨hsteps₁.lock, hsteps₁.known, hsteps₁.order, hlawful, hsteps₁.fact⟩
  unfold fail
  dsimp only
  split
  · exact hsteps.emit (by simp)
  · exact hsteps

theorem session_fail {e : HubError} (hs : s < h.sessions.length) :
    (fail s e h).session s =
      { h.session s with state := .failed, lastError := some e.message } := by
  let h₁ := h.onSession s fun session => { session with lastError := some e.message }
  have hsession₁ : h₁.session s = { h.session s with lastError := some e.message } :=
    Hub.session_onSession s _ hs
  have hs₁ : s < h₁.sessions.length := by simpa [h₁, Hub.onSession] using hs
  have henter : (enter s .failed h₁).session s = { h₁.session s with state := .failed } :=
    session_enter _ hs₁
  rw [hsession₁] at henter
  unfold fail
  dsimp only
  split <;> exact henter

/-! ## Taking down -/

theorem session_dropClient (hs : s < h.sessions.length) :
    (dropClient s h).session s = { h.session s with running := none } := by
  unfold dropClient
  split
  · rename_i hnone
    rw [← hnone]
  · exact Hub.session_onSession s _ hs

theorem steps_dropClient (hs : s < h.sessions.length) (horder : (h.session s).InOrder)
    (hne : (h.session s).state ≠ .started) (hfact : F' { h.session s with running := none }) :
    Steps s F' h (dropClient s h) := by
  have hsession := session_dropClient hs
  have hsame : (dropClient s h).locks = h.locks ∧ (dropClient s h).events = h.events ∧
      (dropClient s h).sessions.length = h.sessions.length := by
    unfold dropClient
    split
    · exact ⟨rfl, rfl, rfl⟩
    · exact ⟨rfl, rfl, by simp [Hub.onSession, Hub.onClient]⟩
  refine ⟨?_, ?_, ?_, Hub.lawful_of_eq ?_ hsame.2.1, ?_⟩
  · rw [Hub.lock, hsame.1]
    rfl
  · rw [hsame.2.2]
    exact hs
  · rw [hsession]
    exact ⟨fun hstarted => absurd hstarted hne, horder.failed,
      fun hstopped => ⟨rfl, (horder.stopped hstopped).2⟩, horder.documents⟩
  · rw [hsession]
  · rwa [hsession]

theorem inOrder_unlinked (h : x.InOrder) : ({ x with link := none } : Session).InOrder :=
  ⟨h.started, h.failed, fun hstopped =>
    ⟨(h.stopped hstopped).1, rfl, (h.stopped hstopped).2.2⟩, h.documents⟩

/-- The session's client is used no more. -/
def IsSilent (state : ServerState) (x : Session) : Prop := x.state = state ∧ x.running = none

/-- The session's connection is down. -/
def IsDown (state : ServerState) (x : Session) : Prop := IsSilent state x ∧ x.link = none

theorem steady_isSilent {state : ServerState} (hne : state ≠ .started) : Steady (IsSilent state) :=
  fun x y hmeddles hy hx => ⟨steady_state hne x y hmeddles hy hx.1,
    hmeddles.running.elim (fun heq => heq.trans hx.2) id⟩

theorem steady_isDown {state : ServerState} (hne : state ≠ .started) : Steady (IsDown state) :=
  fun x y hmeddles hy hx => ⟨steady_isSilent hne x y hmeddles hy hx.1,
    hmeddles.link.elim (fun heq => heq.trans hx.2) id⟩

/-- Whoever has the turn takes the connection down for good. -/
theorem reaches_tearDown {state : ServerState} (hne : state ≠ .started) :
    Reaches s me (InTurn s me t fun x => x.state = state) (tearDown s)
      fun _ => InTurn s me t (IsDown state) := by
  refine .bind (Q := fun _ => InTurn s me t (IsSilent state))
    (reaches_step fun h hs horder hstate =>
      steps_dropClient hs horder (by rwa [hstate]) ⟨hstate, rfl⟩) fun _ => ?_
  refine .bind (Q := fun _ => InTurn s me t (IsDown state)) (.withLock (by simp)
    (lasting_inTurn (steady_isSilent hne)) (.bind (Q := fun _ => InTurn s me t (IsDown state))
      (reaches_stepGet fun h hs horder hsilent => steps_onSession hs rfl (inOrder_unlinked horder)
        ⟨hsilent, rfl⟩) fun link => ?_)
    fun _ => lasting_inTurn (steady_isDown hne)) fun _ => ?_
  · cases link with
    | none => exact reaches_pure _ fun _ hw => hw
    | some link => exact reaches_inTurn (steady_isDown hne) (sparing_endServer link)
  · exact reaches_step fun h hs horder hdown => steps_onSession hs rfl
      ⟨horder.started, horder.failed, horder.stopped, horder.documents⟩ hdown

/-- Anybody may take the connection of a session down that is not started. -/
theorem reaches_tearDown_outside :
    Reaches s me (fun w => (w.session s).state ≠ .started) (tearDown s) fun _ _ => True := by
  refine .bind (Q := fun _ _ => True) (reaches_modify fun w hw hne => ⟨?_, trivial⟩) fun _ => ?_
  · have hsteps : Steps s (fun _ => True) w.hub (dropClient s w.hub) :=
      steps_dropClient hw.known hw.order hne trivial
    refine hsteps.meddles ?_
    rw [session_dropClient hw.known]
    exact .of_eq (.inl rfl) (.inr rfl) rfl rfl
  refine .bind (Q := fun _ _ => True) (.withLock (by simp) lasting_true (.bind
    (Q := fun _ _ => True) (reaches_modifyGet fun w hw _ => ⟨acts_onSession hw
      (.of_eq (.inr rfl) (.inl rfl) rfl rfl) rfl (inOrder_unlinked hw.order), trivial⟩)
    fun link => ?_) fun _ => lasting_true) fun _ => ?_
  · cases link with
    | none => exact reaches_pure _ fun _ hw => hw
    | some link => exact reaches_of_sparing lasting_true (sparing_endServer link)
  · exact reaches_modify fun w hw _ => ⟨acts_onSession hw (.of_eq (.inl rfl) (.inl rfl) rfl rfl)
      rfl ⟨hw.order.started, hw.order.failed, hw.order.stopped, hw.order.documents⟩, trivial⟩

/-! ## Stopping -/

/-- A stop leaves the session stopped, or as it was when it was never started. -/
theorem reaches_stopInTurn :
    Reaches s me (InTurn s me t fun x => x.state.IsAtRest) (stopInTurn s)
      fun _ => InTurn s me t fun x => x.state.IsIdle := by
  refine reaches_get inTurn_move fun h => ?_
  dsimp only
  split
  · rename_i hidle
    exact reaches_pure _ fun w hw => ⟨hw.1.holds, by rwa [World.session, hw.2]⟩
  rename_i hbusy
  refine Reaches.weaken (P := InTurn s me t fun x => x.state.HasBegun) ?_ (fun w hw => ?_)
    fun _ _ hw => hw
  · refine .bind (Q := fun _ => InTurn s me t fun x => x.state.HasBegun)
      (reaches_step fun h hs horder hbegun => steps_onSession hs rfl
        ⟨horder.started, horder.failed, horder.stopped, horder.documents⟩ hbegun) fun _ => ?_
    refine .bind (Q := fun _ => InTurn s me t fun x => x.state = .stopping)
      (reaches_step fun h hs horder hbegun => steps_enter hs ?_
        ⟨nofun, nofun, by simp, fun _ => .inr (.inl rfl)⟩ rfl) fun _ => ?_
    · rcases hbegun with hstate | hstate <;> rw [hstate] <;> rfl
    refine .bind (reaches_inTurn (steady_state (by simp)) sparing_sayGoodbye) fun _ => ?_
    refine .bind (reaches_tearDown (by simp)) fun _ => ?_
    refine .bind (Q := fun _ => InTurn s me t fun x =>
        IsDown .stopping x ∧ x.documents = [] ∧ x.startedAt = none)
      (reaches_step fun h hs horder hdown => steps_onSession hs rfl
        ⟨horder.started, horder.failed, by simp [hdown.1.1], fun hsome => absurd rfl hsome⟩
        ⟨hdown, rfl, rfl⟩) fun _ => ?_
    refine reaches_step fun h hs horder hbare => steps_enter hs (by rw [hbare.1.1.1]; rfl)
      ⟨nofun, nofun, fun _ => ?_, fun hsome => absurd hbare.2.1 hsome⟩ (.inr rfl)
    exact ⟨hbare.1.1.2, hbare.1.2, hbare.2⟩
  · refine ⟨hw.1.holds, hw.1.fact.isIdle_or.resolve_left fun hidle => hbusy ?_⟩
    rwa [World.session, hw.2] at hidle

/-! ## Starting -/

/-- The session is on its way and has no failure to remember. -/
def IsFresh (state : ServerState) (x : Session) : Prop := x.state = state ∧ x.lastError = none

theorem steady_isFresh {state : ServerState} (hne : state ≠ .started) : Steady (IsFresh state) :=
  fun x y hmeddles hy hx => by
    refine ⟨steady_state hne x y hmeddles hy hx.1, ?_⟩
    rcases hmeddles.state with ⟨-, herror⟩ | ⟨hstarted, -⟩
    · exact herror.trans hx.2
    · exact absurd (hx.1.symm.trans hstarted) hne

theorem reaches_failWith {state : ServerState} (hleads : state.leadsTo .failed = true)
    (e : HubError) :
    Reaches s me (InTurn s me t fun x => x.state = state)
      (failWith s e : Program (Except HubError α))
      fun _ => InTurn s me t fun x => x.state.HasBegun :=
  .bind (Q := fun _ => InTurn s me t fun x => x.state.HasBegun)
    (reaches_step fun h hs _ hstate =>
      steps_fail hs (by rwa [hstate]) fun _ hfailed => .inr hfailed)
    fun _ => reaches_pure _ fun _ hw => hw

theorem reaches_run (c epoch : Nat) (capabilities : ServerCapabilities) :
    Reaches s me (InTurn s me t (IsFresh .initializing)) (run s c epoch capabilities)
      fun _ => InTurn s me t fun x => x.state.HasBegun := by
  refine .bind (reaches_inTurn (steady_isFresh (by simp)) (Client.sparing_onClient _)) fun _ => ?_
  refine .bind
    (Q := fun _ => InTurn s me t fun x => IsFresh .initializing x ∧ x.running.isSome = true)
    (reaches_step fun h hs horder hfresh => steps_onSession hs rfl ⟨by simp [hfresh.1],
      by simp [hfresh.1], by simp [hfresh.1], horder.documents⟩ ⟨hfresh, rfl⟩) fun _ => ?_
  refine .bind (Q := fun _ => InTurn s me t fun x => x.state.HasBegun)
    (reaches_step fun h hs horder hready => steps_enter hs (by rw [hready.1.1]; rfl)
      ⟨fun _ => ⟨hready.2, hready.1.2⟩, nofun, by simp, fun _ => .inl rfl⟩ (.inl rfl))
    fun _ => ?_
  refine .bind (reaches_inTurn steady_hasBegun sparing_pushSettings) fun _ => ?_
  exact reaches_inTurn steady_hasBegun (sparing_start rfl)

theorem reaches_introduce (c epoch : Nat) (folders : List WorkspaceFolder) :
    Reaches s me (InTurn s me t (IsFresh .starting)) (introduce s c epoch folders)
      fun _ => InTurn s me t fun x => x.state.HasBegun := by
  have hgiveUp : ∀ e : HubError, Reaches s me (InTurn s me t (IsFresh .initializing))
      (tearDown s >>= fun _ => failWith s e : Program (Except HubError Unit))
      fun _ => InTurn s me t fun x => x.state.HasBegun := fun e =>
    .bind ((reaches_tearDown (by simp)).weaken (fun w hw => ⟨hw.holds, hw.fact.1⟩)
      fun _ w hw => ⟨hw.holds, hw.fact.1.1⟩) fun _ => reaches_failWith rfl e
  refine .bind (Q := fun _ => InTurn s me t (IsFresh .initializing))
    (reaches_step fun h hs horder hfresh => steps_enter hs (by rw [hfresh.1]; rfl)
      ⟨nofun, nofun, by simp, fun hsome => ?_⟩ ⟨rfl, hfresh.2⟩) fun _ => ?_
  · have hstate := horder.documents hsome
    simp [hfresh.1] at hstate
  refine .bind (reaches_inTurn (steady_isFresh (by simp)) (sparing_shakeHands c folders))
    fun r => ?_
  cases r with
  | error e => exact hgiveUp e
  | ok capabilities =>
    refine .bind (reaches_inTurn (steady_isFresh (by simp)) (Client.sparing_notify _ _))
      fun r => ?_
    cases r with
    | error e => exact hgiveUp e
    | ok => exact .bind (reaches_run c epoch capabilities) fun _ => reaches_pure _ fun _ hw => hw

/-- The session as it is made to start. -/
def begun (s : Nat) (h : Hub) : Hub := h.onSession s fun session => session.begin h.clock

theorem session_begun (hs : s < h.sessions.length) :
    (begun s h).session s = (h.session s).begin h.clock := Hub.session_onSession s _ hs

theorem steps_begin (hs : s < h.sessions.length) (horder : (h.session s).InOrder)
    (hidle : (h.session s).state.IsIdle) :
    Steps s (IsFresh .starting) (begun s h) (enter s .starting (begun s h)) := by
  have hbare : (h.session s).documents = [] := (horder.stopped hidle).2.2.1
  refine steps_enter ?_ ?_ ?_ ?_
  · simpa [begun, Hub.onSession] using hs
  · rw [session_begun hs]
    rcases hidle with hstate | hstate <;> simp [Session.begin, hstate, ServerState.leadsTo]
  · rw [session_begun hs]
    exact ⟨by simp, by simp, by simp, fun hsome => absurd hbare hsome⟩
  · rw [session_begun hs]
    exact ⟨rfl, rfl⟩

/-- The first changes of a start, of which the session is in order only after the last. -/
theorem inTurn_begin {w : World} (hw : w.Inv s)
    (hturn : InTurn s me t (fun x => x.state.IsIdle) w) :
    let w' := ((w.move s me (begun s w.hub)).move s me (begun s w.hub)).move s me
      (enter s .starting (begun s w.hub))
    w'.Inv s ∧ Binds s (· ≠ me) w w' ∧ InTurn s me t (IsFresh .starting) w' := by
  let w₁ := w.move s me (begun s w.hub)
  let w₂ := w₁.move s me (begun s w.hub)
  have hsteps := steps_begin hw.known hw.order hturn.fact
  have hholds₁ : w₁.Holds s me t := holds_move rfl hturn.holds
  have hholds₂ : w₂.Holds s me t := holds_move (w := w₁) rfl hholds₁
  have hholds₃ := holds_move (w := w₂) hsteps.lock hholds₂
  have hsame : Hub.Lawful s w.hub (begun s w.hub) := by
    refine Hub.lawful_of_eq ?_ rfl
    rw [session_begun hw.known]
    rfl
  refine ⟨⟨hsteps.known, hsteps.order, ?_, fun hfree => ?_,
    ⟨⟨hw.lawful, hsame⟩, Hub.lawful_of_eq rfl rfl⟩, hsteps.lawful⟩, ?_, hholds₃, hsteps.fact⟩
  · have hvalid := hw.valid
    have hlock : (w₂.move s me (enter s .starting (begun s w.hub))).lock s = w.lock s :=
      hsteps.lock
    rwa [hlock]
  · rw [Lock.isFree_iff] at hfree
    exact absurd (hholds₃.holder.symm.trans hfree) (by simp)
  · have hbinds₁ : Binds s (· ≠ me) w w₁ := binds_of_holds rfl hturn.holds
    have hbinds₂ : Binds s (· ≠ me) w₁ w₂ := binds_of_holds (w := w₁) rfl hholds₁
    exact hbinds₁.trans (hbinds₂.trans (binds_of_holds (w := w₂) hsteps.lock hholds₂))

/-- A start leaves the session started or failed. -/
theorem reaches_startInTurn :
    Reaches s me (InTurn s me t fun x => x.state.IsIdle) (startInTurn s)
      fun _ => InTurn s me t fun x => x.state.HasBegun := by
  intro m hm hturn _ _ _
  obtain ⟨hinv, hbinds, hfresh⟩ := inTurn_begin hm.inv hturn
  let m' := ((m.set (begun s m.state)).set (begun s m.state)).set
    (enter s .starting (begun s m.state))
  have hm' : m'.Sound := ⟨hinv, hm.guarantee.trans hbinds, hm.jobs⟩
  refine (Reaches.bind (P := InTurn s me t (IsFresh .starting)) (reaches_inTurn
    (steady_isFresh (by simp)) sparing_openConnection) fun r => ?_) m' hm' hfresh
  cases r with
  | error e =>
    exact (reaches_failWith rfl e).weaken (fun w hw => ⟨hw.holds, hw.fact.1⟩) fun _ _ hw => hw
  | ok link =>
    have hfresh : Steady (IsFresh .starting) := steady_isFresh (by simp)
    have honSession : ∀ {f : Hub → Session → Session} (_ : ∀ h x, (f h x).state = x.state ∧
        (f h x).lastError = x.lastError ∧ (f h x).documents = x.documents),
        Reaches s me (InTurn s me t (IsFresh .starting))
          (Routine.modify fun h => h.onSession s (f h) : Program Unit)
          fun _ => InTurn s me t (IsFresh .starting) := fun {f} hf =>
      reaches_step fun h hs horder hx => by
        obtain ⟨hstate, herror, hdocuments⟩ := hf h (h.session s)
        refine steps_onSession hs hstate ⟨?_, ?_, ?_, ?_⟩ ⟨hstate.trans hx.1, herror.trans hx.2⟩
        · simp [hstate, hx.1]
        · simp [hstate, hx.1]
        · simp [hstate, hx.1]
        · rw [hdocuments, hstate]
          exact horder.documents
    refine .bind (honSession fun _ _ => ⟨rfl, rfl, rfl⟩) fun _ => ?_
    refine .bind (.withLock (by simp) (lasting_inTurn hfresh)
      (honSession (f := fun _ session => { session with link := some link })
        fun _ _ => ⟨rfl, rfl, rfl⟩) fun _ => lasting_inTurn hfresh) fun _ => ?_
    refine .bind (reaches_inTurn hfresh sparing_get) fun h => ?_
    refine .bind (reaches_inTurn hfresh (sparing_newClient link _)) fun c => ?_
    exact .ensuring (reaches_introduce c _ _) (fun _ => lasting_inTurn steady_hasBegun)
      fun _ => Hub.spares_of_eq rfl rfl rfl

end Lifecycle

end LanguageHub
