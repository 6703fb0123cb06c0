import LanguageHub.Feature.Request
import LanguageHub.Hub.Jobs
import LanguageHub.Proofs.Registry.Operations
import LanguageHub.Proofs.Routine.Conduct

/-!
# The roll

The hub's roll is the registry, the roster and which definition each session runs. Only three
things ever change it: what is done to the registry, the watcher that takes sessions off the roster,
and the routing of a document, which makes the sessions that it needs. Whatever else starts and
stops sessions and talks to servers leaves the roll alone.

Laws: every call, and every task but the watcher, routes documents at most.
-/

namespace LanguageHub

open Routine (get gets modify modifyGet waitUntil Conducts)

/-- What a session is made for, and stays for. -/
def Session.identity (s : Session) : String × Nat × ScopeKey := (s.serverId, s.definition, s.scope)

namespace Hub

/-- The registry, the roster and what the sessions are for stay as they are. -/
structure KeepsRoll (h h' : Hub) : Prop where
  registry : h'.registry = h.registry
  roster : h'.roster = h.roster
  identities : h'.sessions.map Session.identity = h.sessions.map Session.identity

/-- Documents may be routed, which makes sessions. -/
inductive Enrolls : Hub → Hub → Prop where
  | keeps {h h' : Hub} (hkept : h.KeepsRoll h') : Enrolls h h'
  | routes (document : DocumentRef) (h : Hub) : Enrolls h (sessionsFor document h).2
  | trans {h h' h'' : Hub} (first : Enrolls h h') (second : Enrolls h' h'') : Enrolls h h''

/-- Documents may be routed, always by the same workspace folders. -/
inductive Serves : Hub → Hub → Prop where
  | keeps {h h' : Hub} (hkept : h.KeepsRoll h') (hroots : h'.roots = h.roots) : Serves h h'
  | routes (document : DocumentRef) (h : Hub) : Serves h (sessionsFor document h).2
  | trans {h h' h'' : Hub} (first : Serves h h') (second : Serves h' h'') : Serves h h''

variable {h h' : Hub}

theorem Enrolls.refl (h : Hub) : h.Enrolls h := .keeps ⟨rfl, rfl, rfl⟩

theorem Serves.enrolls (hserves : h.Serves h') : h.Enrolls h' := by
  induction hserves with
  | keeps hkept _ => exact .keeps hkept
  | routes document h => exact .routes document h
  | trans _ _ ih ih' => exact ih.trans ih'

theorem Serves.refl (h : Hub) : h.Serves h := .keeps ⟨rfl, rfl, rfl⟩ rfl

theorem Serves.of_eq (hregistry : h'.registry = h.registry) (hroster : h'.roster = h.roster)
    (hsessions : h'.sessions = h.sessions) (hroots : h'.roots = h.roots) : h.Serves h' :=
  .keeps ⟨hregistry, hroster, congrArg _ hsessions⟩ hroots

theorem KeepsRoll.length (hkept : h.KeepsRoll h') : h'.sessions.length = h.sessions.length := by
  simpa using congrArg List.length hkept.identities

theorem KeepsRoll.identity (hkept : h.KeepsRoll h') (s : Nat) :
    (h'.session s).identity = (h.session s).identity := by
  have hmap : ∀ k : Hub, (k.session s).identity =
      ((k.sessions.map Session.identity)[s]?).getD (Session.identity default) := by
    intro k
    rw [List.getElem?_map, session]
    cases k.sessions[s]? <;> rfl
  rw [hmap h', hkept.identities, ← hmap h]

theorem keepsRoll_onSession {s : Nat} {f : Session → Session}
    (hf : ∀ x, (f x).identity = x.identity) : h.KeepsRoll (h.onSession s f) where
  registry := rfl
  roster := rfl
  identities := by
    refine List.ext_getElem? fun i => ?_
    simp only [onSession, List.getElem?_map, List.getElem?_modify]
    cases h.sessions[i]? with
    | none => rfl
    | some x =>
      by_cases hi : s = i <;> simp [hi, hf]

/-- What is kept by whatever keeps the roll, and by the routing of documents. -/
theorem Enrolls.preserves {inv : Hub → Prop}
    (hkeeps : ∀ {h h' : Hub}, h.KeepsRoll h' → inv h → inv h')
    (hroutes : ∀ document h, inv h → inv (sessionsFor document h).2) (henrolls : h.Enrolls h')
    (hinv : inv h) : inv h' := by
  induction henrolls with
  | keeps hkept => exact hkeeps hkept hinv
  | routes document h => exact hroutes document h hinv
  | trans _ _ ih ih' => exact ih' (ih hinv)

end Hub

/-- It follows no registry. -/
def Job.IsOrdinary : Job → Prop
  | .watchRegistry _ => False
  | _ => True

/-- All that the program does is to route documents and what keeps the roll, also when it is
dropped, and it starts no watcher. -/
abbrev Enrolling {α : Type} (p : Program α) : Prop := p.Conducts Hub.Enrolls Job.IsOrdinary

/-- It never changes the workspace folders either. -/
abbrev Serving {α : Type} (p : Program α) : Prop := p.Conducts Hub.Serves Job.IsOrdinary

theorem Serving.enrolling {α : Type} {p : Program α} (hp : Serving p) : Enrolling p :=
  hp.mono (fun _ _ => Hub.Serves.enrolls) fun _ hjob => hjob

section Rules

variable {α β : Type} {p : Program α}

theorem serving_pure (a : α) : Serving (pure a : Program α) := trivial

theorem serving_get : Serving (get : Program Hub) := ⟨.refl, fun _ => trivial⟩

theorem serving_gets (f : Hub → α) : Serving (gets f : Program α) := ⟨.refl, fun _ => trivial⟩

theorem serving_modify {f : Hub → Hub} (hf : ∀ h, Hub.Serves h (f h)) :
    Serving (modify f : Program Unit) := ⟨hf, fun _ => trivial⟩

theorem serving_modifyGet {f : Hub → α × Hub} (hf : ∀ h, Hub.Serves h (f h).2) :
    Serving (modifyGet f : Program α) := ⟨hf, fun _ => trivial⟩

theorem serving_waitUntil (ready : Hub → Bool) : Serving (waitUntil ready : Program Unit) :=
  ⟨.refl, trivial⟩

theorem serving_spawn {job : Job} (hjob : job.IsOrdinary) :
    Serving (Routine.start job : Program Unit) := ⟨hjob, trivial⟩

theorem Serving.inLine (n : LockName) {p : Nat → Program α}
    (hp : ∀ ticket, Serving (p ticket)) : Serving (Program.inLine n p) :=
  .bind (serving_modifyGet fun _ => .of_eq rfl rfl rfl rfl) fun ticket =>
    (hp ticket).ensuring (fun _ => .of_eq rfl rfl rfl rfl) .trans

theorem Serving.withLock (n : LockName) (hp : Serving p) :
    Serving (Program.withLock n p) :=
  .inLine n fun _ => .bind (serving_waitUntil _) fun _ => hp

theorem serving_sleep (d : Duration) : Serving (Program.sleep d) :=
  .bind (serving_modifyGet fun _ => .of_eq rfl rfl rfl rfl) fun _ => serving_waitUntil _

theorem Serving.all {ps : List (Program α)} (hps : ∀ p ∈ ps, Serving p) :
    Serving (Routine.all ps) :=
  Routine.conducts_all .refl .trans hps

end Rules

/-! ## Clients -/

namespace Client

variable {α : Type} {c : Nat}

theorem serving_onClient (f : Client → Client) :
    Serving (modify (Hub.onClient c f) : Program Unit) :=
  serving_modify fun _ => .of_eq rfl rfl rfl rfl

theorem serving_fromClient (f : Client → α × Client) :
    Serving (modifyGet (Hub.fromClient c f) : Program α) :=
  serving_modifyGet fun _ => .of_eq rfl rfl rfl rfl

theorem serving_holding {p : Program α} (hp : Serving p) : Serving (holding c p) :=
  .bind (serving_onClient _) fun _ => hp.ensuring (fun _ => .of_eq rfl rfl rfl rfl) .trans

theorem serving_transfer (m : Message) (size fuel sent : Nat) :
    Serving (transfer c m size fuel sent) := by
  induction fuel generalizing sent with
  | zero => exact serving_pure _
  | succ fuel ih =>
    refine .bind (serving_waitUntil _) fun _ =>
      .bind (serving_modifyGet fun _ => .of_eq rfl rfl rfl rfl) fun count => ?_
    cases count with
    | error e => exact serving_pure _
    | ok count =>
      dsimp only
      split
      · exact serving_pure _
      · exact ih _

theorem serving_write (m : Message) : Serving (write c m) :=
  .withLock _ (serving_transfer ..)

theorem serving_notify (method : String) (params : Json) :
    Serving (notify c method params) := by
  refine .bind (serving_gets _) fun client => ?_
  split
  · exact serving_write _
  · exact serving_pure _

theorem serving_awaitAnswer (id : RequestId) (method : String) (cancellation : Option Nat)
    (timeout : Duration) : Serving (awaitAnswer c id method cancellation timeout) := by
  refine .bind (serving_modifyGet fun _ => .of_eq rfl rfl rfl rfl) fun deadline =>
    .bind (serving_waitUntil _) fun _ => .bind serving_get fun h => ?_
  split
  · exact .bind (serving_onClient _) fun _ => .bind (serving_notify _ _) fun _ =>
      serving_pure _
  split
  · refine .bind (serving_fromClient _) fun r => ?_
    cases r <;> exact serving_pure _
  · exact .bind (serving_onClient _) fun _ => serving_pure _

theorem serving_exchange (id : RequestId) (method : String) (params : Json)
    (cancellation : Option Nat) (timeout : Duration) :
    Serving (exchange c id method params cancellation timeout) := by
  refine .bind (serving_write _) fun r => ?_
  cases r with
  | error e => exact .bind (serving_onClient _) fun _ => serving_pure _
  | ok => exact serving_awaitAnswer ..

theorem serving_tracking (cancellation : Option Nat) (r : PendingRequest) {p : Program α}
    (hp : Serving p) : Serving (tracking cancellation r p) := by
  cases cancellation with
  | none => exact hp
  | some i =>
    exact .bind (serving_modifyGet fun _ => .of_eq rfl rfl rfl rfl) fun token =>
      hp.ensuring (fun _ => .of_eq rfl rfl rfl rfl) .trans

theorem serving_request (method : String) (params : Json) (cancellation : Option Nat)
    (timeout : Duration) : Serving (request c method params cancellation timeout) := by
  refine .bind serving_get fun h => ?_
  split
  · exact serving_pure _
  split
  · exact serving_pure _
  refine .bind (serving_fromClient _) fun id => .bind (serving_waitUntil _) fun _ =>
    .bind (serving_fromClient _) fun registered => ?_
  split
  · exact serving_tracking _ _ (serving_exchange ..)
  · exact serving_pure _

theorem serving_ask (method : String) (params : Json) (cancellation : Option Nat) :
    Serving (ask c method params cancellation) :=
  .bind (serving_gets _) fun _ => serving_request ..

theorem serving_shutDown (timeout : Duration) : Serving (shutDown c timeout) :=
  .bind (serving_request ..) fun _ => .bind (serving_notify _ _) fun _ => serving_pure _

theorem serving_heedMessage (m : Message) : Serving (heedMessage c m) := by
  cases m with
  | response r =>
    obtain ⟨version, id, result, error⟩ := r
    cases id with
    | none => exact serving_pure _
    | some id => exact .bind (serving_waitUntil _) fun _ => serving_onClient _
  | request r =>
    exact .bind serving_get fun h => .bind (serving_write _) fun _ => serving_pure _
  | notification n => exact serving_onClient _

theorem serving_heedAll (bodies : List String) : Serving (heedAll c bodies) := by
  induction bodies with
  | nil => exact serving_pure _
  | cons body rest ih =>
    refine .bind ?_ fun _ => ih
    unfold heedBody
    split
    · exact serving_heedMessage _
    · exact serving_pure _

theorem serving_readOnce : Serving (readOnce c) := by
  refine .bind (serving_waitUntil _) fun _ =>
    .bind (serving_modifyGet fun _ => .of_eq rfl rfl rfl rfl) fun received => ?_
  cases received with
  | bytes bytes =>
    refine .bind (serving_gets _) fun client => .bind (serving_heedAll _) fun _ => ?_
    split <;> exact .bind (serving_onClient _) fun _ => serving_pure _
  | ended =>
    exact .bind (serving_onClient _) fun _ => .bind (serving_waitUntil _) fun _ =>
      .bind (serving_onClient _) fun _ => serving_pure _

theorem serving_listen : Serving (listen c) :=
  .bind (serving_readOnce.untilStopped .refl _) fun _ => serving_pure _

end Client

/-! ## Sessions -/

namespace Session

variable {s : Nat}

theorem serves_enter (s : Nat) (state : ServerState) (h : Hub) :
    h.Serves (enter s state h) := by
  unfold enter
  dsimp only
  split
  · exact .refl h
  · have hentered : h.KeepsRoll (h.onSession s fun session => { session with state }) :=
      Hub.keepsRoll_onSession fun _ => rfl
    exact .keeps ⟨rfl, rfl, hentered.identities⟩ rfl

theorem serves_onSession {h : Hub} {f : Session → Session}
    (hf : ∀ x, (f x).identity = x.identity) : h.Serves (h.onSession s f) :=
  .keeps (Hub.keepsRoll_onSession hf) rfl

theorem serves_fail (e : HubError) (h : Hub) : h.Serves (fail s e h) := by
  have hnoted : h.Serves (h.onSession s fun session =>
      { session with lastError := some e.message }) := serves_onSession fun _ => rfl
  have hfailed := hnoted.trans (serves_enter s .failed _)
  unfold fail
  dsimp only
  split
  · exact hfailed.trans (.of_eq rfl rfl rfl rfl)
  · exact hfailed

theorem serves_dropClient (h : Hub) : h.Serves (dropClient s h) := by
  unfold dropClient
  split
  · exact .refl h
  · have hdropped : h.Serves (h.onSession s fun session => { session with running := none }) :=
      serves_onSession fun _ => rfl
    exact hdropped.trans (.of_eq rfl rfl rfl rfl)

theorem serving_enter (state : ServerState) :
    Serving (modify (enter s state) : Program Unit) :=
  serving_modify (serves_enter s state)

theorem serving_onSession {f : Session → Session} (hf : ∀ x, (f x).identity = x.identity) :
    Serving (modify (Hub.onSession s f) : Program Unit) :=
  serving_modify fun _ => serves_onSession hf

theorem serving_failWith {α : Type} (e : HubError) :
    Serving (failWith s e : Program (Except HubError α)) :=
  .bind (serving_modify (serves_fail e)) fun _ => serving_pure _

/-! ### What a session says -/

theorem serving_pushSettings : Serving (pushSettings s) := by
  refine .bind serving_get fun h => ?_
  split
  · exact serving_pure _
  split
  · exact serving_pure _
  · exact Client.serving_holding (Client.serving_notify _ _)

theorem serving_sayGoodbye : Serving (sayGoodbye s) := by
  refine .bind serving_get fun h => ?_
  split
  · exact serving_pure _
  split
  · exact .bind (Client.serving_holding (Client.serving_shutDown _)) fun _ => serving_pure _
  · exact serving_pure _

theorem serving_tell (n : DocumentNotice) : Serving (tell s n) := by
  refine .bind serving_get fun h => ?_
  split
  · exact serving_pure _
  · refine .bind (Client.serving_holding (Client.serving_notify _ _)) fun r => ?_
    cases r <;> exact serving_pure _

theorem serving_ask {α : Type} (method : String) (params : Json) (cancellation : Option Nat)
    (read : Json → Option α) : Serving (ask s method params cancellation read) := by
  refine .bind serving_get fun h => ?_
  split
  · exact serving_pure _
  · exact .bind (Client.serving_holding (Client.serving_ask ..)) fun _ => serving_pure _

/-! ### Connections -/

theorem serving_reach (connection : Connection) (id root : String) :
    Serving (reach connection id root) := by
  cases connection with
  | factory =>
    refine .bind (serving_waitUntil _) fun _ => serving_modifyGet fun h => ?_
    unfold takeLaunch
    split <;> exact .of_eq rfl rfl rfl rfl
  | process command workingDir env =>
    unfold reach
    dsimp only
    split
    · exact serving_pure _
    · refine .bind serving_get fun h => ?_
      split
      · exact serving_pure _
      · exact .bind (serving_sleep _) fun _ => serving_pure _
  | socket address =>
    unfold reach
    dsimp only
    split
    · exact serving_pure _
    · exact .bind serving_get fun h => serving_pure _

theorem serving_openConnection : Serving (openConnection s) :=
  .bind serving_get fun h => .bind (serving_reach ..) fun launch =>
    serving_modifyGet fun h => by
      cases launch <;> exact .of_eq rfl rfl rfl rfl

theorem serving_endServer (link : Nat) : Serving (endServer link) := by
  refine .bind serving_get fun h => .bind serving_get fun h => ?_
  split
  · exact .bind (serving_modifyGet fun _ => .of_eq rfl rfl rfl rfl) fun deadline =>
      .bind (serving_waitUntil _) fun _ => serving_modify fun _ => .of_eq rfl rfl rfl rfl
  · exact serving_pure _

theorem serving_tearDown : Serving (tearDown s) := by
  refine .bind (serving_modify serves_dropClient) fun _ => .bind ?_ fun _ =>
    serving_onSession fun _ => rfl
  have hcut : ∀ h : Hub, h.Serves (h.onSession s fun session => { session with link := none }) :=
    fun h => serves_onSession fun _ => rfl
  refine Serving.withLock _ (.bind (serving_modifyGet hcut) fun link => ?_)
  cases link with
  | none => exact serving_pure _
  | some link => exact serving_endServer link

/-! ### Starting and stopping -/

theorem serving_stopInTurn : Serving (stopInTurn s) := by
  refine .bind serving_get fun h => ?_
  dsimp only
  split
  · exact serving_pure _
  · exact .bind (serving_onSession fun _ => rfl) fun _ => .bind (serving_enter _) fun _ =>
      .bind serving_sayGoodbye fun _ => .bind serving_tearDown fun _ =>
        .bind (serving_onSession fun _ => rfl) fun _ => serving_enter _

theorem serving_run (c epoch : Nat) (capabilities : ServerCapabilities) :
    Serving (run s c epoch capabilities) :=
  .bind (Client.serving_onClient _) fun _ => .bind (serving_onSession fun _ => rfl) fun _ =>
    .bind (serving_enter _) fun _ => .bind serving_pushSettings fun _ =>
      serving_spawn trivial

theorem serving_introduce (c epoch : Nat) (folders : List WorkspaceFolder) :
    Serving (introduce s c epoch folders) := by
  have hgreeting : Serving (shakeHands s c folders) :=
    .bind serving_get fun _ => .bind (Client.serving_request ..) fun _ => serving_pure _
  refine .bind (serving_enter _) fun _ => .bind hgreeting fun r => ?_
  cases r with
  | error e => exact .bind serving_tearDown fun _ => serving_failWith e
  | ok capabilities =>
    refine .bind (Client.serving_notify _ _) fun r => ?_
    cases r with
    | error e => exact .bind serving_tearDown fun _ => serving_failWith e
    | ok => exact .bind (serving_run ..) fun _ => serving_pure _

theorem serving_newClient (link : Nat) (folders : List WorkspaceFolder) :
    Serving (newClient s link folders) :=
  .bind (serving_modifyGet fun _ => .of_eq rfl rfl rfl rfl) fun _ =>
    .bind (serving_spawn trivial) fun _ => serving_pure _

theorem serving_startInTurn : Serving (startInTurn s) := by
  have hbegin : ∀ h : Hub, h.Serves (h.onSession s (·.begin h.clock)) := fun h =>
    serves_onSession fun _ => rfl
  refine .bind (serving_modify hbegin) fun _ => .bind serving_get fun h =>
    .bind (serving_enter _) fun _ => .bind serving_openConnection fun r => ?_
  cases r with
  | error e => exact serving_failWith e
  | ok link =>
    have hreached : ∀ h : Hub, h.Serves (h.onSession s fun session =>
        { session with processId := (h.link link).processId }) := fun h =>
      serves_onSession fun _ => rfl
    refine .bind (serving_modify hreached) fun _ =>
      .bind (Serving.withLock _ (serving_onSession fun _ => rfl)) fun _ =>
        .bind serving_get fun h => .bind (serving_newClient ..) fun c => ?_
    exact (serving_introduce ..).ensuring (fun _ => .of_eq rfl rfl rfl rfl) .trans

theorem serving_start : Serving (start s) :=
  .withLock _ (.bind serving_get fun h => by
    dsimp only
    split
    · exact serving_pure _
    · exact serving_pure _
    · exact serving_startInTurn)

theorem serving_stop : Serving (stop s) := .withLock _ serving_stopInTurn

theorem serving_watchConnection (c epoch : Nat) : Serving (watchConnection s c epoch) := by
  refine .bind (serving_waitUntil _) fun _ => .bind serving_get fun h => ?_
  dsimp only
  split
  · exact .bind (serving_modify (serves_fail _)) fun _ => serving_tearDown
  · exact serving_pure _

theorem serving_stopWhenIdle (attachments : Nat) : Serving (stopWhenIdle s attachments) := by
  refine .bind serving_get fun h => .bind (serving_sleep _) fun _ =>
    .bind serving_get fun h => ?_
  dsimp only
  split
  · exact serving_stop
  · exact serving_pure _

/-! ### Documents -/

theorem serving_openDocument (sync : Synchronizer) : Serving (openDocument s sync) := by
  have hadd : ∀ h, Hub.Serves h (addDocument s sync h).2 := fun h => by
    have hmade : h.Serves { h with synchronizers := h.synchronizers ++ [sync] } :=
      .of_eq rfl rfl rfl rfl
    exact hmade.trans (serves_onSession fun _ => rfl)
  refine .bind (serving_modifyGet hadd) fun k => .bind (Serving.inLine _ fun _ => ?_)
    fun _ => serving_pure _
  refine .bind serving_get fun h => .bind (serving_tell _) fun told => ?_
  split
  · exact serving_modify fun _ => .of_eq rfl rfl rfl rfl
  · exact serving_pure _

theorem serving_reopen (settings : SyncSettings) (documents : List Synchronizer) :
    Serving (reopen s settings documents) := by
  induction documents with
  | nil => exact serving_pure _
  | cons sync rest ih => exact .bind (serving_openDocument _) fun _ => ih

theorem serving_restart : Serving (restart s) :=
  .withLock _ (.bind serving_get fun h => by
    dsimp only
    split
    · exact serving_pure _
    refine .bind serving_stopInTurn fun _ => .bind serving_startInTurn fun r => ?_
    cases r with
    | error e => exact serving_pure _
    | ok => exact .bind serving_get fun h => .bind (serving_reopen ..) fun _ =>
        serving_pure _)

theorem serving_connect (document : DocumentRef) (text : String) :
    Serving (connect s document text) := by
  refine .bind serving_start fun r => ?_
  cases r with
  | error e => exact serving_pure _
  | ok =>
    refine .bind (serving_onSession fun _ => rfl) fun _ => .bind serving_get fun h => ?_
    dsimp only
    split
    · exact serving_pure _
    · exact serving_pure _
    · exact .bind (serving_openDocument _) fun _ => serving_pure _

theorem serving_disconnect (uri : String) : Serving (disconnect s uri) := by
  refine .bind serving_get fun h => ?_
  split
  · exact serving_pure _
  · refine .bind (serving_onSession fun _ => rfl) fun _ => .bind serving_get fun h =>
      .bind (Serving.withLock _ (.bind serving_get fun h => .bind (serving_tell _)
        fun told => ?_)) fun _ => ?_
    · split
      · exact serving_modify fun _ => .of_eq rfl rfl rfl rfl
      · exact serving_pure _
    · split
      · exact .bind serving_get fun h => serving_spawn trivial
      · exact serving_pure _

theorem serving_commit (uri : String) : Serving (commit s uri) := by
  refine .bind serving_get fun h => ?_
  split
  · exact serving_pure _
  · refine Serving.withLock _ (.bind (serving_modifyGet fun _ => .of_eq rfl rfl rfl rfl)
      fun notice => ?_)
    cases notice with
    | none => exact serving_pure _
    | some notice =>
      exact .bind serving_get fun h => .bind (serving_tell _) fun _ => serving_pure _

theorem serving_save (uri text : String) : Serving (save s uri text) := by
  refine .bind serving_get fun h => ?_
  split
  · exact serving_pure _
  · refine Serving.withLock _ (.bind serving_get fun h => ?_)
    split
    · exact serving_pure _
    · exact .bind (serving_tell _) fun _ => serving_pure _

end Session

/-! ## Questions about documents -/

theorem Feature.serving_requestTo (feature : Feature) (uri : String) (cancellation s : Nat) :
    Serving (feature.requestTo uri cancellation s) := by
  refine .bind serving_get fun h => ?_
  cases feature with
  | usages position =>
    refine .bind (.bind serving_get fun h => .bind (Serving.all fun p hp => ?_) fun _ =>
      serving_pure _) fun _ => serving_pure _
    obtain ⟨kind, -, rfl⟩ := List.mem_map.mp hp
    exact .bind (Session.serving_ask ..) fun _ => serving_pure _
  | _ => exact .bind (Session.serving_ask ..) fun _ => serving_pure _

theorem Merge.serves_report (method : String) (failures : List ServerFailure) (h : Hub) :
    h.Serves (report method failures h) := by
  unfold report
  induction failures generalizing h with
  | nil => exact .refl h
  | cons f rest ih =>
    have hfirst : h.Serves (h.emit (.requestFailed f.serverId method f.error.message)) :=
      .of_eq rfl rfl rfl rfl
    exact hfirst.trans (ih _)

theorem FeatureRequest.serving_run (r : FeatureRequest) : Serving r.run := by
  have hasked : Serving (Routine.all
      (r.sessions.map (r.feature.requestTo r.uri r.cancellation))) := by
    refine .all fun p hp => ?_
    obtain ⟨s, -, rfl⟩ := List.mem_map.mp hp
    exact r.feature.serving_requestTo r.uri r.cancellation s
  unfold run Merge.call
  split
  · exact serving_pure _
  · refine Conducts.onAbandon (hasked.pauseWhen_bind .refl _ (fun rest hrest => ?_)
      fun answers => ?_) (fun _ => .of_eq rfl rfl rfl rfl) .trans
    · exact .bind (serving_modifyGet fun _ => .of_eq rfl rfl rfl rfl) fun _ =>
        .bind (hrest.giveUpWhen .refl _) fun _ => serving_pure _
    · refine .bind serving_get fun h => ?_
      split
      · exact serving_pure _
      · exact .bind (serving_modify (Merge.serves_report _ _)) fun _ => serving_pure _

/-! ## The hub -/

namespace Hub

theorem serving_connectDocument (document : DocumentRef) (text : String) :
    Serving (connectDocument document text) := by
  refine .bind (serving_modifyGet (.routes document)) fun candidates =>
    .bind (Serving.all fun p hp => ?_) fun _ => serving_pure _
  obtain ⟨s, -, rfl⟩ := List.mem_map.mp hp
  refine .bind (Session.serving_connect document text) fun r => ?_
  cases r <;> exact serving_pure _

theorem serving_withConnected {α : Type} (uri : String) {p : Nat → Program α}
    (hp : ∀ s, Serving (p s)) : Serving (withConnected uri p) := by
  refine .bind serving_get fun h => .bind (Serving.all fun q hq => ?_) fun _ => serving_pure _
  obtain ⟨s, -, rfl⟩ := List.mem_map.mp hq
  exact hp s

theorem serving_stopAll (sessions : List Nat) : Serving (stopAll sessions) := by
  refine .bind (Serving.all fun p hp => ?_) fun _ => serving_pure _
  obtain ⟨s, -, rfl⟩ := List.mem_map.mp hp
  exact Session.serving_stop

theorem serving_stopServer (id : String) : Serving (stopServer id) :=
  .bind serving_get fun _ => serving_stopAll _

theorem serving_restartServer (id : String) : Serving (restartServer id) := by
  refine .bind serving_get fun h => .bind (Routine.conducts_inOrder fun p hp => ?_) fun _ =>
    serving_pure _
  obtain ⟨s, -, rfl⟩ := List.mem_map.mp hp
  refine .bind serving_get fun h => ?_
  split
  · exact serving_pure _
  · exact Session.serving_restart

theorem follow_of_lost {e : RegistryEvent} {id : String} (he : e.lost? = some id) :
    follow e = retire id := by
  cases e with
  | removed k => rw [← Option.some.inj he]; rfl
  | replaced k => rw [← Option.some.inj he]; rfl
  | added k => cases he
  | changed k settings options enabled => cases he

/-- What a change of a definition asks for leaves the roll alone. -/
theorem serving_follow {e : RegistryEvent} (he : e.lost? = none) : Serving (follow e) := by
  cases e with
  | added id => exact serving_pure _
  | removed id => cases he
  | replaced id => cases he
  | changed id settings options enabled =>
    refine .bind serving_get fun h => ?_
    dsimp only
    split
    · exact serving_stopServer id
    split
    · refine .bind (Routine.conducts_untilFailure fun p hp => ?_) fun _ => serving_pure _
      obtain ⟨s, -, rfl⟩ := List.mem_map.mp hp
      refine .bind serving_get fun h => ?_
      split
      · exact Session.serving_restart
      · exact serving_pure _
    split
    · refine .bind (Routine.conducts_inOrder fun p hp => ?_) fun _ => serving_pure _
      obtain ⟨s, -, rfl⟩ := List.mem_map.mp hp
      exact Session.serving_pushSettings
    · exact serving_pure _

end Hub

/-! ## Calls and jobs -/

theorem Call.serving_program (c : Call) : Serving c.program := by
  have hthen : ∀ {α : Type} {p : Program α} {f : α → Outcome}, Serving p →
      Serving (p >>= fun a => pure (f a)) := fun hp => .bind hp fun _ => serving_pure _
  cases c with
  | request => exact hthen (Client.serving_holding (Client.serving_request ..))
  | notify => exact hthen (Client.serving_holding (Client.serving_notify ..))
  | shutDown => exact hthen (Client.serving_holding (Client.serving_shutDown _))
  | startSession => exact hthen Session.serving_start
  | stopSession => exact hthen Session.serving_stop
  | restartSession => exact hthen Session.serving_restart
  | pushSettings => exact hthen Session.serving_pushSettings
  | connect => exact hthen (Session.serving_connect ..)
  | disconnect => exact hthen (Session.serving_disconnect _)
  | commit => exact hthen (Session.serving_commit _)
  | save => exact hthen (Session.serving_save ..)
  | connectDocument document text =>
    exact .bind (Hub.serving_connectDocument document text) fun _ =>
      .bind serving_get fun _ => serving_pure _
  | disconnectDocument =>
    exact hthen (Hub.serving_withConnected _ fun _ => Session.serving_disconnect _)
  | commitDocument =>
    exact hthen (Hub.serving_withConnected _ fun _ => Session.serving_commit _)
  | saveDocument =>
    exact hthen (Hub.serving_withConnected _ fun _ => Session.serving_save ..)
  | restartServer id => exact hthen (Hub.serving_restartServer id)
  | stopServer id => exact hthen (Hub.serving_stopServer id)
  | shutDownAll =>
    have hall : Serving Hub.shutDownAll := .bind serving_get fun _ => Hub.serving_stopAll _
    exact hthen hall
  | ask r => exact hthen r.serving_run
  | cancelAfter cancellation delay =>
    exact .bind (serving_sleep delay) fun _ =>
      hthen (serving_modify fun _ => .of_eq rfl rfl rfl rfl)

/-- Every task but a watcher routes documents at most, and never goes on as a watcher. -/
theorem Job.serving_program {job : Job} (hjob : job.IsOrdinary) :
    job.program.IsConducted Hub.Serves Job.IsOrdinary := by
  cases job with
  | read c =>
    refine ⟨.bind Client.serving_listen fun _ => trivial, Routine.endsWith_bind fun goesOn => ?_⟩
    intro next hnext
    cases goesOn with
    | true => exact Option.some.inj hnext ▸ trivial
    | false => cases hnext
  | watchConnection s c epoch =>
    exact ⟨.bind (Session.serving_watchConnection c epoch) fun _ => trivial,
      Routine.endsWith_bind fun _ => nofun⟩
  | stopWhenIdle s attachments =>
    exact ⟨.bind (Session.serving_stopWhenIdle attachments) fun _ => trivial,
      Routine.endsWith_bind fun _ => nofun⟩
  | watchRegistry cursor => exact hjob.elim
  | call slot c =>
    exact ⟨.bind c.serving_program fun _ =>
        .bind (serving_modify fun _ => .of_eq rfl rfl rfl rfl) fun _ => trivial,
      Routine.endsWith_bind fun _ => Routine.endsWith_bind fun _ => nofun⟩

theorem Job.enrolling_program {job : Job} (hjob : job.IsOrdinary) :
    job.program.IsConducted Hub.Enrolls Job.IsOrdinary :=
  (Job.serving_program hjob).mono (fun _ _ => Hub.Serves.enrolls) fun _ hordinary => hordinary

end LanguageHub
