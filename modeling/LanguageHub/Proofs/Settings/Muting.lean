import LanguageHub.Proofs.Settings.Telling

/-!
# Programs that tell no settings

Of all that runs at sessions only their starts and what pushes settings tells servers about
settings. The rest does not, whatever happens around it.

Laws: programs that are made of such programs are such programs.
-/

namespace LanguageHub

open Routine (get gets modify modifyGet waitUntil Conducts)

/-- The program tells no server any settings and starts no session, also when it is dropped. -/
abbrev Muting {α : Type} (p : Program α) : Prop := p.Conducts Hub.Mutes fun _ => True

section Rules

variable {α β : Type} {p : Program α}

theorem muting_pure (a : α) : Muting (pure a : Program α) := trivial

theorem muting_get : Muting (get : Program Hub) := ⟨.refl, fun _ => trivial⟩

theorem muting_gets (f : Hub → α) : Muting (gets f : Program α) := ⟨.refl, fun _ => trivial⟩

theorem muting_modify {f : Hub → Hub} (hf : ∀ h, Hub.Mutes h (f h)) :
    Muting (modify f : Program Unit) := ⟨hf, fun _ => trivial⟩

theorem muting_modifyGet {f : Hub → α × Hub} (hf : ∀ h, Hub.Mutes h (f h).2) :
    Muting (modifyGet f : Program α) := ⟨hf, fun _ => trivial⟩

theorem muting_waitUntil (ready : Hub → Bool) : Muting (waitUntil ready : Program Unit) :=
  ⟨.refl, trivial⟩

theorem muting_start (job : Job) : Muting (Routine.start job : Program Unit) :=
  ⟨trivial, trivial⟩

theorem Muting.inLine (n : LockName) {p : Nat → Program α} (hp : ∀ ticket, Muting (p ticket)) :
    Muting (Program.inLine n p) :=
  .bind (muting_modifyGet fun _ => .enterLock) fun ticket =>
    (hp ticket).ensuring (fun _ => .leaveLock) .trans

theorem Muting.withLock (n : LockName) (hp : Muting p) : Muting (Program.withLock n p) :=
  .inLine n fun _ => .bind (muting_waitUntil _) fun _ => hp

theorem muting_sleep (d : Duration) : Muting (Program.sleep d) :=
  .bind (muting_modifyGet fun _ => .of_eq rfl rfl rfl rfl rfl rfl) fun _ => muting_waitUntil _

theorem Muting.all {ps : List (Program α)} (hps : ∀ p ∈ ps, Muting p) :
    Muting (Routine.all ps) :=
  Routine.conducts_all .refl .trans hps

end Rules

/-! ## Clients -/

namespace Client

variable {α : Type} {c : Nat}

theorem muting_onClient {f : Client → Client} (hlink : ∀ x, (f x).link = x.link)
    (hdefinition : ∀ x, (f x).definition = x.definition)
    (hclosed : ∀ x, x.isOpen = false → (f x).isOpen = false) :
    Muting (modify (Hub.onClient c f) : Program Unit) :=
  muting_modify fun _ => .onClient (hlink _) (hdefinition _) (hclosed _)

theorem muting_onClient_same {f : Client → Client} (hsame : ∀ x, (f x).link = x.link ∧
      (f x).definition = x.definition ∧ (f x).isOpen = x.isOpen) :
    Muting (modify (Hub.onClient c f) : Program Unit) :=
  muting_onClient (fun x => (hsame x).1) (fun x => (hsame x).2.1) fun x hx =>
    (hsame x).2.2.trans hx

theorem muting_fromClient {f : Client → α × Client} (hlink : ∀ x, (f x).2.link = x.link)
    (hdefinition : ∀ x, (f x).2.definition = x.definition)
    (hclosed : ∀ x, x.isOpen = false → (f x).2.isOpen = false) :
    Muting (modifyGet (Hub.fromClient c f) : Program α) :=
  muting_modifyGet fun _ => .fromClient (hlink _) (hdefinition _) (hclosed _)

theorem muting_hold : Muting (modify (Hub.onClient c hold) : Program Unit) :=
  muting_onClient_same fun _ => ⟨rfl, rfl, rfl⟩

theorem mutes_release (h : Hub) : h.Mutes (h.onClient c release) :=
  .onClient rfl rfl fun hopen => hopen

theorem muting_forget (id : RequestId) :
    Muting (modify (Hub.onClient c (·.forget id)) : Program Unit) :=
  muting_onClient_same fun _ => ⟨rfl, rfl, rfl⟩

theorem muting_holding {p : Program α} (hp : Muting p) : Muting (holding c p) :=
  .bind muting_hold fun _ => hp.ensuring mutes_release .trans

theorem muting_transfer {m : Message} {size : Nat} (fuel : Nat) {sent : Nat}
    (hm : sent ≠ 0 ∨ m.settings? = none) : Muting (transfer c m size fuel sent) := by
  induction fuel generalizing sent with
  | zero => exact muting_pure _
  | succ fuel ih =>
    refine .bind (muting_waitUntil _) fun _ =>
      .bind (muting_modifyGet fun _ => .write hm) fun count => ?_
    cases count with
    | error e => exact muting_pure _
    | ok count =>
      dsimp only
      split
      · exact muting_pure _
      · exact ih (hm.imp_left fun hsent => by omega)

theorem muting_write {m : Message} (hm : m.settings? = none) : Muting (write c m) :=
  .withLock _ (muting_transfer _ (.inr hm))

theorem muting_notify {method : String} (params : Json)
    (hmethod : method ≠ "workspace/didChangeConfiguration") :
    Muting (notify c method params) := by
  refine .bind (muting_gets _) fun client => ?_
  split
  · exact muting_write (Message.settings?_ofNotification params hmethod)
  · exact muting_pure _

theorem muting_awaitAnswer (id : RequestId) (method : String) (cancellation : Option Nat)
    (timeout : Duration) : Muting (awaitAnswer c id method cancellation timeout) := by
  refine .bind (muting_modifyGet fun _ => .of_eq rfl rfl rfl rfl rfl rfl) fun deadline =>
    .bind (muting_waitUntil _) fun _ => .bind muting_get fun h => ?_
  split
  · exact .bind (muting_forget id) fun _ => .bind (muting_notify _ (by decide)) fun _ =>
      muting_pure _
  split
  · refine .bind (muting_fromClient (fun _ => rfl) (fun _ => rfl) fun _ hx => hx) fun r => ?_
    cases r <;> exact muting_pure _
  · exact .bind (muting_forget id) fun _ => muting_pure _

theorem muting_exchange (id : RequestId) (method : String) (params : Json)
    (cancellation : Option Nat) (timeout : Duration) :
    Muting (exchange c id method params cancellation timeout) := by
  refine .bind (muting_write rfl) fun r => ?_
  cases r with
  | error e => exact .bind (muting_forget id) fun _ => muting_pure _
  | ok => exact muting_awaitAnswer ..

theorem muting_tracking (cancellation : Option Nat) (r : PendingRequest) {p : Program α}
    (hp : Muting p) : Muting (tracking cancellation r p) := by
  cases cancellation with
  | none => exact hp
  | some i =>
    exact .bind (muting_modifyGet fun _ => .of_eq rfl rfl rfl rfl rfl rfl) fun token =>
      hp.ensuring (fun _ => .of_eq rfl rfl rfl rfl rfl rfl) .trans

theorem muting_register (id : RequestId) :
    Muting (modifyGet (Hub.fromClient c (·.register id)) : Program Bool) := by
  have hsame : ∀ x : Client, (x.register id).2.link = x.link ∧
      (x.register id).2.definition = x.definition ∧ (x.register id).2.isOpen = x.isOpen := by
    intro x
    unfold register
    split <;> exact ⟨rfl, rfl, rfl⟩
  exact muting_fromClient (fun x => (hsame x).1) (fun x => (hsame x).2.1) fun x hx =>
    (hsame x).2.2.trans hx

theorem muting_request (method : String) (params : Json) (cancellation : Option Nat)
    (timeout : Duration) : Muting (request c method params cancellation timeout) := by
  refine .bind muting_get fun h => ?_
  split
  · exact muting_pure _
  split
  · exact muting_pure _
  refine .bind (muting_fromClient (fun _ => rfl) (fun _ => rfl) fun _ hx => hx) fun id =>
    .bind (muting_waitUntil _) fun _ => .bind (muting_register id) fun registered => ?_
  split
  · exact muting_tracking _ _ (muting_exchange ..)
  · exact muting_pure _

theorem muting_ask (method : String) (params : Json) (cancellation : Option Nat) :
    Muting (ask c method params cancellation) :=
  .bind (muting_gets _) fun _ => muting_request ..

theorem muting_shutDown (timeout : Duration) : Muting (shutDown c timeout) :=
  .bind (muting_request ..) fun _ => .bind (muting_notify _ (by decide)) fun _ => muting_pure _

theorem muting_deliver (id : RequestId) (r : Response) :
    Muting (modify (Hub.onClient c (·.deliver id r)) : Program Unit) := by
  refine muting_onClient_same fun x => ?_
  unfold deliver
  split <;> exact ⟨rfl, rfl, rfl⟩

theorem muting_heed (n : Notification) :
    Muting (modify (Hub.onClient c (·.heed n)) : Program Unit) := by
  refine muting_onClient_same fun x => ?_
  unfold heed
  split
  · split <;> exact ⟨rfl, rfl, rfl⟩
  · exact ⟨rfl, rfl, rfl⟩

theorem muting_breakDown : Muting (modify (Hub.onClient c breakDown) : Program Unit) := by
  have hsame : ∀ x : Client, x.breakDown.link = x.link ∧ x.breakDown.definition = x.definition ∧
      (x.isOpen = false → x.breakDown.isOpen = false) := by
    intro x
    unfold breakDown
    split
    · rename_i hopen
      exact ⟨rfl, rfl, fun hclosed => absurd (hclosed.symm.trans hopen) Bool.false_ne_true⟩
    · exact ⟨rfl, rfl, id⟩
  exact muting_onClient (fun x => (hsame x).1) (fun x => (hsame x).2.1) fun x => (hsame x).2.2

theorem muting_heedMessage (m : Message) : Muting (heedMessage c m) := by
  cases m with
  | response r =>
    obtain ⟨version, id, result, error⟩ := r
    cases id with
    | none => exact muting_pure _
    | some id => exact .bind (muting_waitUntil _) fun _ => muting_deliver id _
  | request r =>
    exact .bind muting_get fun h => .bind (muting_write (settings?_answerTo ..)) fun _ =>
      muting_pure _
  | notification n => exact muting_heed n

theorem muting_heedAll (bodies : List String) : Muting (heedAll c bodies) := by
  induction bodies with
  | nil => exact muting_pure _
  | cons body rest ih =>
    refine .bind ?_ fun _ => ih
    unfold heedBody
    split
    · exact muting_heedMessage _
    · exact muting_pure _

theorem mutes_read (l limit : Nat) (h : Hub) : h.Mutes (h.fromLink l (·.read limit)).2 := by
  have hsame : ∀ x : Link, (x.read limit).2.told? = x.told? ∧
      (x.IsBroken → (x.read limit).2.IsBroken) := by
    intro x
    unfold Link.read
    split <;> exact ⟨rfl, id⟩
  exact .onLink (f := fun _ => ((h.link l).read limit).2) (hsame _).1 (hsame _).2

theorem muting_heedFrames (bytes : Frame.Bytes) : Muting (heedFrames c bytes) := by
  have hbuffer : ∀ buffer, Muting (modify (Hub.onClient c fun client =>
      { client with buffer }) : Program Unit) := fun _ =>
    muting_onClient_same fun _ => ⟨rfl, rfl, rfl⟩
  refine .bind (muting_gets _) fun client => .bind (muting_heedAll _) fun _ => ?_
  split
  · exact .bind (hbuffer _) fun _ => muting_pure _
  · exact .bind (hbuffer _) fun _ => muting_pure _
  · exact .bind muting_breakDown fun _ => muting_pure _

theorem muting_readOnce : Muting (readOnce c) := by
  refine .bind (muting_waitUntil _) fun _ =>
    .bind (muting_modifyGet fun h => mutes_read _ _ h) fun received => ?_
  cases received with
  | bytes bytes => exact muting_heedFrames bytes
  | ended =>
    exact .bind (muting_onClient (fun _ => rfl) (fun _ => rfl) fun _ _ => rfl) fun _ =>
      .bind (muting_waitUntil _) fun _ =>
        .bind (muting_onClient (fun _ => rfl) (fun _ => rfl) fun _ hx => hx) fun _ =>
          muting_pure _

theorem muting_listen : Muting (listen c) :=
  .bind (muting_readOnce.untilStopped .refl _) fun _ => muting_pure _

end Client

/-! ## Sessions -/

namespace Session

variable {s : Nat}

theorem muting_onSession {f : Session → Session} (hidentity : ∀ x, (f x).identity = x.identity)
    (hrunning : ∀ x, (f x).running = x.running) (hstate : ∀ x, (f x).state = x.state) :
    Muting (modify (Hub.onSession s f) : Program Unit) :=
  muting_modify fun _ => .onSession_same hidentity hrunning hstate

theorem mutes_enter {state : ServerState} (hstate : state ≠ .started) (h : Hub) :
    h.Mutes (enter s state h) := by
  unfold enter
  dsimp only
  split
  · exact .refl h
  · have hentered : h.Mutes (h.onSession s fun session => { session with state }) :=
      .onSession (fun _ => rfl) (fun _ => .inl rfl) fun _ heq => absurd heq hstate
    exact hentered.trans (.of_eq rfl rfl rfl rfl rfl rfl)

theorem mutes_fail (e : HubError) (h : Hub) : h.Mutes (fail s e h) := by
  have hnoted : h.Mutes (h.onSession s fun session =>
      { session with lastError := some e.message }) :=
    .onSession_same (fun _ => rfl) (fun _ => rfl) fun _ => rfl
  have hentered : ∀ h : Hub, h.Mutes (enter s .failed h) := mutes_enter (by decide)
  have hfailed := hnoted.trans (hentered _)
  unfold fail
  dsimp only
  split
  · exact hfailed.trans (.of_eq rfl rfl rfl rfl rfl rfl)
  · exact hfailed

theorem mutes_dropClient (h : Hub) : h.Mutes (dropClient s h) := by
  unfold dropClient
  split
  · exact .refl h
  · have hdropped : h.Mutes (h.onSession s fun session => { session with running := none }) :=
      .onSession (fun _ => rfl) (fun _ => .inr rfl) fun _ => id
    exact hdropped.trans (Client.mutes_release _)

theorem muting_enter {state : ServerState} (hstate : state ≠ .started) :
    Muting (modify (enter s state) : Program Unit) :=
  muting_modify (mutes_enter hstate)

theorem muting_failWith {α : Type} (e : HubError) :
    Muting (failWith s e : Program (Except HubError α)) :=
  .bind (muting_modify (mutes_fail e)) fun _ => muting_pure _

theorem muting_sayGoodbye : Muting (sayGoodbye s) := by
  refine .bind muting_get fun h => ?_
  split
  · exact muting_pure _
  split
  · exact .bind (Client.muting_holding (Client.muting_shutDown _)) fun _ => muting_pure _
  · exact muting_pure _

theorem muting_tell (n : DocumentNotice) : Muting (tell s n) := by
  refine .bind muting_get fun h => ?_
  split
  · exact muting_pure _
  · refine .bind (Client.muting_holding (Client.muting_notify _ n.tells_nothing)) fun r => ?_
    cases r <;> exact muting_pure _

theorem muting_ask {α : Type} (method : String) (params : Json) (cancellation : Option Nat)
    (read : Json → Option α) : Muting (ask s method params cancellation read) := by
  refine .bind muting_get fun h => ?_
  split
  · exact muting_pure _
  · exact .bind (Client.muting_holding (Client.muting_ask ..)) fun _ => muting_pure _

/-! ### Connections -/

theorem muting_reach (connection : Connection) (id root : String) :
    Muting (reach connection id root) := by
  cases connection with
  | factory =>
    refine .bind (muting_waitUntil _) fun _ => muting_modifyGet fun h => ?_
    unfold takeLaunch
    split <;> exact .of_eq rfl rfl rfl rfl rfl rfl
  | process command workingDir env =>
    unfold reach
    dsimp only
    split
    · exact muting_pure _
    · refine .bind muting_get fun h => ?_
      split
      · exact muting_pure _
      · exact .bind (muting_sleep _) fun _ => muting_pure _
  | socket address =>
    unfold reach
    dsimp only
    split
    · exact muting_pure _
    · exact .bind muting_get fun h => muting_pure _

theorem mutes_openLink (serverId root : String) (launch : Launch) (h : Hub) :
    h.Mutes (openLink serverId root launch h).2 := by
  cases launch with
  | refused reason => exact .refl h
  | mute => exact .refl h
  | opened readFault writeFault => exact .addLink rfl

theorem muting_openConnection : Muting (openConnection s) :=
  .bind muting_get fun _ => .bind (muting_reach ..) fun launch =>
    muting_modifyGet (mutes_openLink _ _ launch)

theorem muting_endServer (link : Nat) : Muting (endServer link) := by
  refine .bind muting_get fun h => .bind muting_get fun h => ?_
  split
  · exact .bind (muting_modifyGet fun _ => .of_eq rfl rfl rfl rfl rfl rfl) fun deadline =>
      .bind (muting_waitUntil _) fun _ => muting_modify fun _ => .onLink rfl id
  · exact muting_pure _

theorem muting_tearDown : Muting (tearDown s) := by
  refine .bind (muting_modify mutes_dropClient) fun _ => .bind ?_ fun _ =>
    muting_onSession (fun _ => rfl) (fun _ => rfl) fun _ => rfl
  have hcut : ∀ h : Hub, h.Mutes (h.onSession s fun session => { session with link := none }) :=
    fun h => .onSession_same (fun _ => rfl) (fun _ => rfl) fun _ => rfl
  refine Muting.withLock _ (.bind (muting_modifyGet hcut) fun link => ?_)
  cases link with
  | none => exact muting_pure _
  | some link => exact muting_endServer link

/-! ### Stopping, and parts of a start -/

theorem muting_stopInTurn : Muting (stopInTurn s) := by
  refine .bind muting_get fun h => ?_
  dsimp only
  split
  · exact muting_pure _
  · exact .bind (muting_onSession (fun _ => rfl) (fun _ => rfl) fun _ => rfl) fun _ =>
      .bind (muting_enter (by decide)) fun _ =>
        .bind muting_sayGoodbye fun _ => .bind muting_tearDown fun _ =>
          .bind (muting_onSession (fun _ => rfl) (fun _ => rfl) fun _ => rfl) fun _ =>
            muting_enter (by decide)

theorem muting_stop : Muting (stop s) := .withLock _ muting_stopInTurn

theorem muting_shakeHands (c : Nat) (folders : List WorkspaceFolder) :
    Muting (shakeHands s c folders) :=
  .bind muting_get fun _ => .bind (Client.muting_request ..) fun _ => muting_pure _

theorem muting_watchConnection (c epoch : Nat) : Muting (watchConnection s c epoch) := by
  refine .bind (muting_waitUntil _) fun _ => .bind muting_get fun h => ?_
  dsimp only
  split
  · exact .bind (muting_modify (mutes_fail _)) fun _ => muting_tearDown
  · exact muting_pure _

theorem muting_stopWhenIdle (attachments : Nat) : Muting (stopWhenIdle s attachments) := by
  refine .bind muting_get fun h => .bind (muting_sleep _) fun _ => .bind muting_get fun h => ?_
  dsimp only
  split
  · exact muting_stop
  · exact muting_pure _

/-! ### Documents -/

theorem muting_openDocument (sync : Synchronizer) : Muting (openDocument s sync) := by
  have hadd : ∀ h, Hub.Mutes h (addDocument s sync h).2 := fun h => by
    have hmade : h.Mutes { h with synchronizers := h.synchronizers ++ [sync] } :=
      .of_eq rfl rfl rfl rfl rfl rfl
    exact hmade.trans (.onSession_same (fun _ => rfl) (fun _ => rfl) fun _ => rfl)
  refine .bind (muting_modifyGet hadd) fun k => .bind (Muting.inLine _ fun _ => ?_)
    fun _ => muting_pure _
  refine .bind muting_get fun h => .bind (muting_tell _) fun told => ?_
  split
  · exact muting_modify fun _ => .of_eq rfl rfl rfl rfl rfl rfl
  · exact muting_pure _

theorem muting_reopen (settings : SyncSettings) (documents : List Synchronizer) :
    Muting (reopen s settings documents) := by
  induction documents with
  | nil => exact muting_pure _
  | cons sync rest ih => exact .bind (muting_openDocument _) fun _ => ih

theorem muting_disconnect (uri : String) : Muting (disconnect s uri) := by
  refine .bind muting_get fun h => ?_
  split
  · exact muting_pure _
  · refine .bind (muting_onSession (fun _ => rfl) (fun _ => rfl) fun _ => rfl) fun _ =>
      .bind muting_get fun h => .bind (Muting.withLock _ (.bind muting_get fun h =>
        .bind (muting_tell _) fun told => ?_)) fun _ => ?_
    · split
      · exact muting_modify fun _ => .of_eq rfl rfl rfl rfl rfl rfl
      · exact muting_pure _
    · split
      · exact .bind muting_get fun h => muting_start _
      · exact muting_pure _

theorem muting_commit (uri : String) : Muting (commit s uri) := by
  refine .bind muting_get fun h => ?_
  split
  · exact muting_pure _
  · refine Muting.withLock _ (.bind (muting_modifyGet fun _ => .of_eq rfl rfl rfl rfl rfl rfl)
      fun notice => ?_)
    cases notice with
    | none => exact muting_pure _
    | some notice =>
      exact .bind muting_get fun h => .bind (muting_tell _) fun _ => muting_pure _

theorem muting_save (uri text : String) : Muting (save s uri text) := by
  refine .bind muting_get fun h => ?_
  split
  · exact muting_pure _
  · refine Muting.withLock _ (.bind muting_get fun h => ?_)
    split
    · exact muting_pure _
    · exact .bind (muting_tell _) fun _ => muting_pure _

end Session

/-! ## Questions about documents -/

theorem Feature.muting_requestTo (feature : Feature) (uri : String) (cancellation s : Nat) :
    Muting (feature.requestTo uri cancellation s) := by
  refine .bind muting_get fun h => ?_
  cases feature with
  | usages position =>
    refine .bind (.bind muting_get fun h => .bind (Muting.all fun p hp => ?_) fun _ =>
      muting_pure _) fun _ => muting_pure _
    obtain ⟨kind, -, rfl⟩ := List.mem_map.mp hp
    exact .bind (Session.muting_ask ..) fun _ => muting_pure _
  | _ => exact .bind (Session.muting_ask ..) fun _ => muting_pure _

theorem Merge.mutes_report (method : String) (failures : List ServerFailure) (h : Hub) :
    h.Mutes (report method failures h) := by
  unfold report
  induction failures generalizing h with
  | nil => exact .refl h
  | cons f rest ih =>
    have hfirst : h.Mutes (h.emit (.requestFailed f.serverId method f.error.message)) :=
      .of_eq rfl rfl rfl rfl rfl rfl
    exact hfirst.trans (ih _)

theorem FeatureRequest.muting_run (r : FeatureRequest) : Muting r.run := by
  have hasked : Muting (Routine.all
      (r.sessions.map (r.feature.requestTo r.uri r.cancellation))) := by
    refine .all fun p hp => ?_
    obtain ⟨s, -, rfl⟩ := List.mem_map.mp hp
    exact r.feature.muting_requestTo r.uri r.cancellation s
  unfold run Merge.call
  split
  · exact muting_pure _
  · refine Conducts.onAbandon (hasked.pauseWhen_bind .refl _ (fun rest hrest => ?_)
      fun answers => ?_) (fun _ => .of_eq rfl rfl rfl rfl rfl rfl) .trans
    · exact .bind (muting_modifyGet fun _ => .of_eq rfl rfl rfl rfl rfl rfl) fun _ =>
        .bind (hrest.giveUpWhen .refl _) fun _ => muting_pure _
    · refine .bind muting_get fun h => ?_
      split
      · exact muting_pure _
      · exact .bind (muting_modify (Merge.mutes_report _ _)) fun _ => muting_pure _

end LanguageHub
