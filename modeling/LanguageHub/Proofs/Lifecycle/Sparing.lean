import LanguageHub.Client.Reader
import LanguageHub.Proofs.Hub.Outline
import LanguageHub.Session.Documents

/-!
# What spares a session

Whatever a client says and hears spares all sessions, and so does what a session says of its
documents: it may wait, but it neither moves the session from state to state nor takes its turn.
-/

/-!
## Sessions in order

What is known of a session in each of its states, which states may follow each other, and how
changes of state are reported. A change of the hub is lawful for a session if it leaves the
session in its state and reports none, or leads it to a state that may follow and reports that
once. Most changes spare the session altogether.
-/

namespace LanguageHub

/-- A session may go from this state to that. -/
def ServerState.leadsTo : ServerState → ServerState → Bool
  | notStarted, starting | stopped, starting => true
  | starting, initializing | starting, failed => true
  | initializing, started | initializing, failed => true
  | started, stopping | started, failed => true
  | failed, stopping => true
  | stopping, stopped => true
  | _, _ => false

/-- What a session's state says about the rest of it. -/
structure Session.InOrder (x : Session) : Prop where
  started : x.state = .started → x.running.isSome = true ∧ x.lastError = none
  failed : x.state = .failed → x.lastError.isSome = true
  stopped : x.state = .notStarted ∨ x.state = .stopped →
    x.running = none ∧ x.link = none ∧ x.documents = [] ∧ x.startedAt = none
  documents : x.documents ≠ [] →
    x.state = .started ∨ x.state = .stopping ∨ x.state = .failed

theorem Session.inOrder_new (serverId : String) (definition : Nat) (scope : ScopeKey)
    (roots : List String) (connection : Connection) :
    (Session.new serverId definition scope roots connection).InOrder where
  started h := nomatch h
  failed h := nomatch h
  stopped _ := ⟨rfl, rfl, rfl, rfl⟩
  documents h := absurd rfl h

/-! ### Reports -/

/-- Among the events that were sent since then, those that report a state of this server in this
scope report these states, one after the other. -/
inductive EventHub.Reports (server scope : String) (start : EventHub) :
    List ServerState → EventHub → Prop where
  | nothing : Reports server scope start [] start
  | state {states : List ServerState} {e : EventHub} (now : Timestamp) (state : ServerState)
      (h : Reports server scope start states e) :
      Reports server scope start (states ++ [state])
        (e.send now (.stateChanged server scope state.name))
  | other {states : List ServerState} {e : EventHub} (now : Timestamp) (k : EventKind)
      (h : Reports server scope start states e)
      (hk : ∀ state, k ≠ .stateChanged server scope state) :
      Reports server scope start states (e.send now k)

theorem EventHub.Reports.trans {server scope : String} {first second : List ServerState}
    {start e e' : EventHub} (h : Reports server scope start first e)
    (h' : Reports server scope e second e') : Reports server scope start (first ++ second) e' := by
  induction h' with
  | nothing => rwa [List.append_nil]
  | state now state _ ih =>
    rw [← List.append_assoc]
    exact .state now state ih
  | other now k _ hk ih => exact .other now k ih hk

namespace Hub

/-- The states that the session is reported to have come to in between. -/
def Reports (s : Nat) (states : List ServerState) (h h' : Hub) : Prop :=
  h.events.Reports (h.session s).serverId (h.session s).scope.shown states h'.events

/-- The session stays in its state, and no state is reported; or it goes on to a state that may
follow, which is reported once. -/
def Lawful (s : Nat) (h h' : Hub) : Prop :=
  (h'.session s).state = (h.session s).state ∧ Reports s [] h h' ∨
    (h.session s).state.leadsTo (h'.session s).state = true ∧
      Reports s [(h'.session s).state] h h'

/-- The change does not touch the session, nor whose turn it is there. -/
structure Spares (s : Nat) (h h' : Hub) : Prop where
  session : h'.sessions[s]? = h.sessions[s]?
  lock : h'.lock (.lifecycle s) = h.lock (.lifecycle s)
  reports : Reports s [] h h'

variable {s : Nat} {h h' h'' : Hub}

theorem reports_of_eq (he : h'.events = h.events) : Reports s [] h h' := by
  rw [Reports, he]
  exact .nothing

theorem session_eq (hsame : h'.sessions[s]? = h.sessions[s]?) : h'.session s = h.session s := by
  rw [session, session, hsame]

theorem spares_of_eq (hsessions : h'.sessions = h.sessions) (hlocks : h'.locks = h.locks)
    (hevents : h'.events = h.events) : Spares s h h' where
  session := by rw [hsessions]
  lock := by rw [lock, lock, hlocks]
  reports := reports_of_eq hevents

theorem Spares.refl (s : Nat) (h : Hub) : Spares s h h := spares_of_eq rfl rfl rfl

theorem Spares.trans (first : Spares s h h') (second : Spares s h' h'') : Spares s h h'' where
  session := second.session.trans first.session
  lock := second.lock.trans first.lock
  reports := by
    have hlast := second.reports
    rw [Reports, session_eq first.session] at hlast
    exact EventHub.Reports.trans first.reports hlast

theorem Spares.lawful (hspares : Spares s h h') : Lawful s h h' :=
  .inl ⟨congrArg Session.state (session_eq hspares.session), hspares.reports⟩

theorem Spares.known (hspares : Spares s h h') (hs : s < h.sessions.length) :
    s < h'.sessions.length := by
  have hsome := List.getElem?_eq_getElem hs
  rw [← hspares.session] at hsome
  exact (List.getElem?_eq_some_iff.mp hsome).1

theorem spares_setLock {n : LockName} (hn : n ≠ .lifecycle s) (l : Lock) :
    Spares s h (h.setLock n l) where
  session := rfl
  lock := by rw [lock_setLock, if_neg hn.symm]
  reports := reports_of_eq rfl

theorem spares_emit {k : EventKind}
    (hk : ∀ server scope state, k ≠ .stateChanged server scope state) : Spares s h (h.emit k) where
  session := rfl
  lock := rfl
  reports := .other _ k .nothing (hk _ _)

theorem lawful_of_eq (hstate : (h'.session s).state = (h.session s).state)
    (hevents : h'.events = h.events) : Lawful s h h' :=
  .inl ⟨hstate, reports_of_eq hevents⟩

end Hub

end LanguageHub

/-! ## What spares a session -/

namespace LanguageHub

open Routine

variable {s : Nat} {α β : Type}

/-- What runs beside the calls on a session. -/
def Job.IsAt (s : Nat) : Job → Prop
  | .read _ => True
  | .watchConnection r _ _ | .stopWhenIdle r _ => r = s
  | _ => False

/-- All that the program does spares the session, also when it is dropped, and it starts only what
runs beside the calls there. -/
def Sparing (s : Nat) : Program α → Prop
  | .done _ => True
  | .act update next => (∀ h, Hub.Spares s h (update h)) ∧ ∀ h, Sparing s (next h)
  | .spawn job next => job.IsAt s ∧ Sparing s next
  | .await _ abandon next => (∀ h, Hub.Spares s h (abandon h)) ∧ Sparing s next

section Rules

variable {p : Program α}

theorem sparing_pure (b : α) : Sparing s (pure b : Program α) := trivial

theorem Sparing.bind {f : α → Program β} (hp : Sparing s p) (hf : ∀ b, Sparing s (f b)) :
    Sparing s (p >>= f) := by
  change Sparing s (Routine.bind p f)
  induction p with
  | done b => exact hf b
  | act update next ih => exact ⟨hp.1, fun h => ih h (hp.2 h)⟩
  | spawn job next ih => exact ⟨hp.1, ih hp.2⟩
  | await ready abandon next ih => exact ⟨hp.1, ih hp.2⟩

theorem Sparing.ensuring {cleanup : Hub → Hub} (hp : Sparing s p)
    (hcleanup : ∀ h, Hub.Spares s h (cleanup h)) : Sparing s (Routine.ensuring cleanup p) := by
  induction p with
  | done b => exact ⟨hcleanup, fun _ => trivial⟩
  | act update next ih => exact ⟨hp.1, fun h => ih h (hp.2 h)⟩
  | spawn job next ih => exact ⟨hp.1, ih hp.2⟩
  | await ready abandon next ih => exact ⟨fun h => (hp.1 h).trans (hcleanup _), ih hp.2⟩

theorem Sparing.abandon (hp : Sparing s p) (h : Hub) : Hub.Spares s h (p.abandon h) := by
  cases p with
  | await ready abandon next => exact hp.1 h
  | _ => exact .refl s h

theorem Sparing.pauseAt_bind (hp : Sparing s p) (stop : Hub → Bool)
    {f : Paused Job Hub α → Program β}
    (hpaused : ∀ rest, Sparing s rest → Sparing s (f (.paused rest)))
    (hfinished : ∀ b, Sparing s (f (.finished b))) : Sparing s ((pauseAt stop p).bind f) := by
  induction p with
  | done b => exact hfinished b
  | act update next ih => exact ⟨hp.1, fun h => ih h (hp.2 h)⟩
  | spawn job next ih => exact ⟨hp.1, ih hp.2⟩
  | await ready abandon next ih =>
    refine ⟨hp.1, fun h => .refl s h, fun h => ?_⟩
    dsimp only
    split
    · exact hpaused _ hp
    · exact ih hp.2

theorem Sparing.untilStopped (hp : Sparing s p) (stop : Hub → Bool) :
    Sparing s (p.untilStopped stop) := by
  refine ⟨fun h => .refl s h, fun h => ?_⟩
  dsimp only
  split
  · exact ⟨hp.abandon, fun _ => trivial⟩
  · exact hp.pauseAt_bind stop (fun _ hrest => ⟨hrest.abandon, fun _ => trivial⟩)
      fun _ => trivial

theorem sparing_modify {f : Hub → Hub} (hf : ∀ h, Hub.Spares s h (f h)) :
    Sparing s (modify f : Program Unit) := ⟨hf, fun _ => trivial⟩

theorem sparing_modifyGet {f : Hub → α × Hub} (hf : ∀ h, Hub.Spares s h (f h).2) :
    Sparing s (modifyGet f : Program α) := ⟨hf, fun _ => trivial⟩

theorem sparing_get : Sparing s (get : Program Hub) :=
  ⟨fun h => .refl s h, fun _ => trivial⟩

theorem sparing_gets (f : Hub → α) : Sparing s (gets f : Program α) :=
  ⟨fun h => .refl s h, fun _ => trivial⟩

theorem sparing_waitUntil (ready : Hub → Bool) : Sparing s (waitUntil ready : Program Unit) :=
  ⟨fun h => .refl s h, trivial⟩

theorem sparing_start {job : Job} (hjob : job.IsAt s) :
    Sparing s (Routine.start job : Program Unit) := ⟨hjob, trivial⟩

theorem Sparing.inLine {n : LockName} (hn : n ≠ .lifecycle s) {p : Nat → Program α}
    (hp : ∀ ticket, Sparing s (p ticket)) : Sparing s (Program.inLine n p) :=
  .bind (sparing_modifyGet fun _ => Hub.spares_setLock hn _) fun ticket =>
    (hp ticket).ensuring fun _ => Hub.spares_setLock hn _

theorem Sparing.withLock {n : LockName} (hn : n ≠ .lifecycle s) (hp : Sparing s p) :
    Sparing s (Program.withLock n p) :=
  .inLine hn fun _ => .bind (sparing_waitUntil _) fun _ => hp

theorem sparing_sleep (d : Duration) : Sparing s (Program.sleep d) :=
  .bind (sparing_modifyGet fun _ => Hub.spares_of_eq rfl rfl rfl) fun _ => sparing_waitUntil _

end Rules

/-! ### Clients -/

namespace Client

variable {c : Nat}

theorem sparing_onClient (f : Client → Client) :
    Sparing s (modify (Hub.onClient c f) : Program Unit) :=
  sparing_modify fun _ => Hub.spares_of_eq rfl rfl rfl

theorem sparing_fromClient (f : Client → α × Client) :
    Sparing s (modifyGet (Hub.fromClient c f) : Program α) :=
  sparing_modifyGet fun _ => Hub.spares_of_eq rfl rfl rfl

theorem sparing_holding {p : Program α} (hp : Sparing s p) : Sparing s (holding c p) :=
  .bind (sparing_onClient _) fun _ => hp.ensuring fun _ => Hub.spares_of_eq rfl rfl rfl

theorem sparing_transfer (m : Message) (size : Nat) :
    ∀ fuel sent, Sparing s (transfer c m size fuel sent)
  | 0, _ => sparing_pure _
  | fuel + 1, sent =>
    .bind (sparing_waitUntil _) fun _ =>
      .bind (sparing_modifyGet fun _ => Hub.spares_of_eq rfl rfl rfl) fun count => by
        cases count with
        | error e => exact sparing_pure _
        | ok count =>
          dsimp only
          split
          · exact sparing_pure _
          · exact sparing_transfer m size fuel _

theorem sparing_write (m : Message) : Sparing s (write c m) :=
  .withLock (by simp) (sparing_transfer m _ _ _)

theorem sparing_notify (method : String) (params : Json) : Sparing s (notify c method params) :=
  .bind (sparing_gets _) fun client => by
    split
    · exact sparing_write _
    · exact sparing_pure _

theorem sparing_withdraw (id : RequestId) : Sparing s (withdraw c id) :=
  .bind (sparing_onClient _) fun _ => .bind (sparing_notify _ _) fun _ => sparing_pure _

theorem sparing_awaitAnswer (id : RequestId) (method : String) (cancellation : Option Nat)
    (timeout : Duration) : Sparing s (awaitAnswer c id method cancellation timeout) :=
  .bind (sparing_modifyGet fun _ => Hub.spares_of_eq rfl rfl rfl) fun deadline =>
    .bind (sparing_waitUntil _) fun _ => .bind sparing_get fun h => by
      split
      · exact sparing_withdraw id
      split
      · refine .bind (sparing_fromClient _) fun r => ?_
        cases r <;> exact sparing_pure _
      · exact .bind (sparing_onClient _) fun _ => sparing_pure _

theorem sparing_exchange (id : RequestId) (method : String) (params : Json)
    (cancellation : Option Nat) (timeout : Duration) :
    Sparing s (exchange c id method params cancellation timeout) :=
  .bind (sparing_write _) fun r => by
    cases r with
    | error e => exact .bind (sparing_onClient _) fun _ => sparing_pure _
    | ok => exact sparing_awaitAnswer id method cancellation timeout

theorem sparing_tracking (cancellation : Option Nat) (r : PendingRequest) {p : Program α}
    (hp : Sparing s p) : Sparing s (tracking cancellation r p) := by
  cases cancellation with
  | none => exact hp
  | some i =>
    exact .bind (sparing_modifyGet fun _ => Hub.spares_of_eq rfl rfl rfl) fun token =>
      hp.ensuring fun _ => Hub.spares_of_eq rfl rfl rfl

theorem sparing_request (method : String) (params : Json) (cancellation : Option Nat)
    (timeout : Duration) : Sparing s (request c method params cancellation timeout) :=
  .bind sparing_get fun h => by
    split
    · exact sparing_pure _
    split
    · exact sparing_pure _
    refine .bind (sparing_fromClient _) fun id => .bind (sparing_waitUntil _) fun _ =>
      .bind (sparing_fromClient _) fun registered => ?_
    split
    · exact sparing_tracking _ _ (sparing_exchange id method params cancellation timeout)
    · exact sparing_pure _

theorem sparing_shutDown (timeout : Duration) : Sparing s (shutDown c timeout) :=
  .bind (sparing_request _ _ _ _) fun _ => .bind (sparing_notify _ _) fun _ => sparing_pure _

/-! ### The reader -/

theorem sparing_heedMessage (m : Message) : Sparing s (heedMessage c m) := by
  cases m with
  | response r =>
    obtain ⟨version, id, result, error⟩ := r
    cases id with
    | none => exact sparing_pure _
    | some id => exact .bind (sparing_waitUntil _) fun _ => sparing_onClient _
  | request r =>
    exact .bind sparing_get fun h => .bind (sparing_write _) fun _ => sparing_pure _
  | notification n => exact sparing_onClient _

theorem sparing_heedAll : ∀ bodies, Sparing s (heedAll c bodies)
  | [] => sparing_pure _
  | body :: rest => by
    refine .bind ?_ fun _ => sparing_heedAll rest
    unfold heedBody
    split
    · exact sparing_heedMessage _
    · exact sparing_pure _

theorem sparing_heedFrames (bytes : Frame.Bytes) : Sparing s (heedFrames c bytes) :=
  .bind (sparing_gets _) fun client => .bind (sparing_heedAll _) fun _ => by
    split <;> exact .bind (sparing_onClient _) fun _ => sparing_pure _

theorem sparing_readOnce : Sparing s (readOnce c) :=
  .bind (sparing_waitUntil _) fun _ =>
    .bind (sparing_modifyGet fun _ => Hub.spares_of_eq rfl rfl rfl) fun received => by
      cases received with
      | bytes bytes => exact sparing_heedFrames bytes
      | ended =>
        exact .bind (sparing_onClient _) fun _ => .bind (sparing_waitUntil _) fun _ =>
          .bind (sparing_onClient _) fun _ => sparing_pure _

theorem sparing_listen : Sparing s (listen c) :=
  (sparing_readOnce.untilStopped _).bind fun _ => sparing_pure _

end Client

/-! ### Sessions -/

namespace Session

theorem sparing_tell (n : DocumentNotice) : Sparing s (tell s n) :=
  .bind sparing_get fun h => by
    split
    · exact sparing_pure _
    · refine .bind (Client.sparing_holding (Client.sparing_notify _ _)) fun r => ?_
      cases r <;> exact sparing_pure _

theorem sparing_sendOpen (k : Nat) : Sparing s (sendOpen s k) :=
  .bind sparing_get fun h => .bind (sparing_tell _) fun told => by
    split
    · exact sparing_modify fun h => Hub.spares_emit (by simp)
    · exact sparing_pure _

theorem sparing_commit (uri : String) : Sparing s (commit s uri) :=
  .bind sparing_get fun h => by
    split
    · exact sparing_pure _
    · refine .withLock (by simp) (.bind (sparing_modifyGet fun _ => Hub.spares_of_eq rfl rfl rfl)
        fun notice => ?_)
      cases notice with
      | none => exact sparing_pure _
      | some notice =>
        exact .bind sparing_get fun h => .bind (sparing_tell _) fun _ => sparing_pure _

theorem sparing_save (uri text : String) : Sparing s (save s uri text) :=
  .bind sparing_get fun h => by
    split
    · exact sparing_pure _
    · refine .withLock (by simp) (.bind sparing_get fun h => ?_)
      split
      · exact sparing_pure _
      · exact .bind (sparing_tell _) fun _ => sparing_pure _

/-- Tells the server that a document is closed, once it is time to. -/
def farewell (s : Nat) (uri : String) (k : Nat) : Program Unit :=
  Program.withLock (.send k) do
    let h ← get
    if ← tell s (h.synchronizer k).closeNotice then
      modify fun h => h.emit (.documentClosed (h.session s).serverId uri)

/-- What is left of a disconnect once the document was dropped. -/
def parting (s : Nat) (uri : String) (k : Nat) : Program Unit := do
  let isLast := ((← get).session s).documents.isEmpty
  farewell s uri k
  if isLast then
    Routine.start (.stopWhenIdle s ((← get).session s).attachments)

theorem disconnect_eq (uri : String) : disconnect s uri = get >>= fun h =>
    match (h.session s).synchronizer? uri with
    | none => pure ()
    | some k =>
      modify (Hub.onSession s fun session => (session.detach uri).touched) >>= fun _ =>
        parting s uri k := rfl

theorem sparing_farewell (uri : String) (k : Nat) : Sparing s (farewell s uri k) :=
  .withLock (by simp) (.bind sparing_get fun h => .bind (sparing_tell _) fun told => by
    split
    · exact sparing_modify fun h => Hub.spares_emit (by simp)
    · exact sparing_pure _)

theorem sparing_parting (uri : String) (k : Nat) : Sparing s (parting s uri k) :=
  .bind sparing_get fun h => .bind (sparing_farewell uri k) fun _ => by
    split
    · exact .bind sparing_get fun h => sparing_start rfl
    · exact sparing_pure _

theorem sparing_reach (connection : Connection) (id root : String) :
    Sparing s (reach connection id root) := by
  have htake : Sparing s (modifyGet (takeLaunch id) : Program Launch) := by
    refine sparing_modifyGet fun h => ?_
    unfold takeLaunch
    split <;> exact Hub.spares_of_eq rfl rfl rfl
  cases connection with
  | factory => exact .bind (sparing_waitUntil _) fun _ => htake
  | process command workingDir env =>
    unfold reach
    dsimp only
    split
    · exact sparing_pure _
    · refine .bind sparing_get fun h => ?_
      split
      · exact sparing_pure _
      · exact .bind (sparing_sleep _) fun _ => sparing_pure _
  | socket address =>
    unfold reach
    dsimp only
    split
    · exact sparing_pure _
    · exact .bind sparing_get fun h => sparing_pure _

theorem sparing_openConnection : Sparing s (openConnection s) :=
  .bind sparing_get fun h => .bind (sparing_reach _ _ _) fun launch =>
    sparing_modifyGet fun h => by
      cases launch <;> exact Hub.spares_of_eq rfl rfl rfl

theorem sparing_newClient (link : Nat) (folders : List WorkspaceFolder) :
    Sparing s (newClient s link folders) :=
  .bind (sparing_modifyGet fun _ => Hub.spares_of_eq rfl rfl rfl) fun _ =>
    .bind (sparing_start trivial) fun _ => sparing_pure _

theorem sparing_shakeHands (c : Nat) (folders : List WorkspaceFolder) :
    Sparing s (shakeHands s c folders) :=
  .bind sparing_get fun _ => .bind (Client.sparing_request _ _ _ _) fun _ => sparing_pure _

theorem sparing_pushSettings : Sparing s (pushSettings s) :=
  .bind sparing_get fun h => by
    split
    · exact sparing_pure _
    · split
      · exact sparing_pure _
      · exact Client.sparing_holding (Client.sparing_notify _ _)

theorem sparing_sayGoodbye : Sparing s (sayGoodbye s) :=
  .bind sparing_get fun h => by
    split
    · exact sparing_pure _
    · split
      · exact .bind (Client.sparing_holding (Client.sparing_shutDown _)) fun _ => sparing_pure _
      · exact sparing_pure _

theorem sparing_endServer (link : Nat) : Sparing s (endServer link) :=
  .bind sparing_get fun h => .bind sparing_get fun h => by
    split
    · exact .bind (sparing_modifyGet fun _ => Hub.spares_of_eq rfl rfl rfl) fun deadline =>
        .bind (sparing_waitUntil _) fun _ =>
          sparing_modify fun _ => Hub.spares_of_eq rfl rfl rfl
    · exact sparing_pure _

end Session

end LanguageHub
