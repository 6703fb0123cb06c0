import LanguageHub.Client.Reader
import LanguageHub.Feature.Request
import LanguageHub.Proofs.Manners.Changes

/-!
# What tasks do at any time

Programs that keep to the custom whatever happens around them: waiting, writing what may be said
late, and requests. A request takes its id while the session is started; it may be sent and taken
back later than that. Features are asked for in this way, side by side, and readers deal with what
servers send.
-/

namespace LanguageHub

theorem UsageKind.method_ne (kind : UsageKind) :
    kind.method ≠ "initialize" ∧ kind.method ≠ "shutdown" := by
  cases kind <;> decide

theorem Feature.method_ne (feature : Feature) :
    feature.method ≠ "initialize" ∧ feature.method ≠ "shutdown" := by
  cases feature with
  | usagesOf kind => exact kind.method_ne
  | _ => simp [method]

namespace Manners

open Routine Client

variable {me c n s : Nat} {α : Type} {w w' : World} {h : Hub} {message : Message}

/-! ## Quiet steps -/

theorem abides_quiet {f : Hub → Hub} (h : ∀ w', w'.Inv → Hears me w w' → w'.Quiet me (f w'.hub)) :
    (modify f : Program Unit).Abides (custom me) w :=
  abides_modify fun w' hw hears => (h w' hw hears).may hw

theorem abides_quietGet {β : Type} {f : Hub → α × Hub} {next : α → Program β}
    (h : ∀ w', w'.Inv → Hears me w w' → w'.Quiet me (f w'.hub).2)
    (hnext : ∀ a, (next a).Abides (custom me) w) :
    (modifyGet f >>= next).Abides (custom me) w :=
  abides_modifyGet fun w' hw hears =>
    have hmay := (h w' hw hears).may hw
    ⟨hmay, (hnext _).later ((custom me).hears_trans hears (hmay.1.hears hw))⟩

theorem quiet_onSession {f : Session → Session} (hrunning : ∀ x, (f x).running = x.running)
    (hstate : ∀ x, (f x).state = x.state) : w.Quiet me (w.hub.onSession s f) :=
  .onSession (by rw [hrunning]; rfl) fun h => (hstate _).symm.trans h

theorem abides_wait {ready : Hub → Bool} :
    (waitUntil ready : Program Unit).Abides (custom me) w :=
  abides_waitUntil fun _ _ _ _ => abides_pure ()

theorem abides_sleep (d : Duration) : (Program.sleep d).Abides (custom me) w :=
  abides_quietGet (fun _ _ _ => .of_eq rfl rfl rfl rfl) fun _ =>
    abides_wait

/-! ## Locks -/

theorem owner_entered
    (hgrows : Grows (w.move me (Hub.enterLock (.writer c) w.hub).2) w') :
    w'.owner c (w.hub.queue c).next = me := by
  have hnext : ((Hub.enterLock (.writer c) w.hub).2.queue c).next = (w.hub.queue c).next + 1 := by
    rw [Hub.queue, Hub.enterLock, Hub.lock_setLock, if_pos rfl, Lock.enter_next]
    rfl
  have howner : (w.move me (Hub.enterLock (.writer c) w.hub).2).owner c (w.hub.queue c).next = me :=
    if_pos ⟨Nat.le_refl _, by rw [hnext]; exact Nat.lt_succ_self _⟩
  refine (hgrows.owner c _ ?_).trans howner
  exact Nat.lt_of_lt_of_eq (Nat.lt_succ_self _) hnext.symm

/-- Whoever comes for a lock goes on as its holder. -/
theorem abides_withLock {name : LockName} {p : Program α}
    (hp : ∀ w₀ w₁ : World, w₀.Inv → Hears me w w₀ → w₁.Inv →
      Hears me (w₀.move me (Hub.enterLock name w₀.hub).2) w₁ →
      (w₁.hub.lock name).holder = some (w₀.hub.lock name).next → p.Abides (custom me) w₁) :
    (Program.withLock name p).Abides (custom me) w := by
  refine abides_modifyGet fun w₀ hw₀ hears₀ => ⟨Quiet.may (.enterLock hw₀.ordered) hw₀, ?_⟩
  have hticket : (Hub.enterLock name w₀.hub).1 = (w₀.hub.lock name).next := Lock.enter_ticket _
  dsimp only
  rw [hticket]
  refine Abides.ensuring (fun w' hw' hears' => .leaveLock hw'.ordered fun c hc => ?_) ?_
  · subst hc
    exact owner_entered hears'.grows
  · exact abides_waitUntil fun w₁ hw₁ hears₁ hheld =>
      hp w₀ w₁ hw₀ hears₀ hw₁ hears₁ ((Lock.isHeldBy_iff _ _).mp hheld)

/-! ## Writing -/

theorem quiet_write {size sent : Nat}
    (hwords : ((w.hub.linkOf c).write message size sent).2.words = (w.hub.linkOf c).words) :
    w.Quiet me (w.hub.fromLink (w.hub.client c).link (·.write message size sent)).2 :=
  .onLink (f := fun _ => ((w.hub.linkOf c).write message size sent).2) hwords

/-- What is written is no word or was begun before, or it may be said whenever it is begun. -/
theorem abides_transfer (size fuel sent : Nat)
    (hsay : ∀ w', w'.Inv → Hears me w w' → sent = 0 → message.isWord = true →
      w'.ran c ∧ w'.MaySay me c message) :
    (transfer c message size fuel sent).Abides (custom me) w := by
  induction fuel generalizing w sent with
  | zero => exact abides_pure _
  | succ fuel ih =>
    rw [transfer_succ]
    refine abides_waitUntil fun w₁ hw₁ hears₁ _ => abides_modifyGet fun w₂ hw₂ hears₂ => ?_
    have hears : Hears me w w₂ := hears₁.trans hears₂
    have hmay : w₂.May me (w₂.hub.fromLink (w₂.hub.client c).link
        (·.write message size sent)).2 := by
      have hwords := Link.words_write (w₂.hub.linkOf c) message size sent
      split at hwords
      · rename_i hbegins
        obtain ⟨hran, hmay⟩ := hsay w₂ hw₂ hears hbegins.1 hbegins.2.1
        exact may_say hw₂ hran hmay hwords
      · exact (quiet_write (hwords.trans (List.append_nil _))).may hw₂
    refine ⟨hmay, ?_⟩
    have hears' := hears.trans (hmay.1.hears hw₂)
    generalize (w₂.hub.fromLink (w₂.hub.client c).link (·.write message size sent)).1 = r
    cases r with
    | error e => exact abides_pure _
    | ok count =>
      rw [carryOn]
      split
      · exact abides_pure _
      · exact ih _ fun w' hw' hears hnone => hsay w' hw' (hears'.trans hears)
          (Nat.eq_zero_of_add_eq_zero_right hnone)

theorem abides_write_answer (hanswer : message.isWord = false) :
    (write c message).Abides (custom me) w :=
  abides_withLock fun _ _ _ _ _ _ _ => abides_transfer _ _ _
    fun _ _ _ _ hword => absurd (hanswer.symm.trans hword) Bool.false_ne_true

/-- What was asked before may be said late. -/
theorem abides_write (hran : w.ran c) (hplain : message.IsPlain)
    (hlate : Late (w.asked c) message) : (write c message).Abides (custom me) w := by
  refine abides_withLock fun w₀ w₁ hw₀ hears₀ hw₁ hears₁ _ =>
    abides_transfer _ _ _ fun w₂ _ hears₂ _ _ => ?_
  have hbegun : Hears me w₀ (w₀.move me (Hub.enterLock (.writer c) w₀.hub).2) :=
    (custom me).hears_of_does hw₀ (Quiet.may (.enterLock hw₀.ordered) hw₀)
  have hears : Hears me w w₂ := hears₀.trans (hbegun.trans (hears₁.trans hears₂))
  exact ⟨hears.ran c hran, .late (hears.ran c hran) hplain (hlate.mono (hears.asked c))⟩

theorem abides_notify {method : String} {params : Json} (hran : w.ran c)
    (hmethod : method ≠ "initialized") (hlate : Late (w.asked c) (.ofNotification method params)) :
    (notify c method params).Abides (custom me) w := by
  refine abides_gets fun w' _ hears => ?_
  split
  · exact abides_write (hears.ran c hran) (Message.isPlain_ofNotification hmethod params)
      (hlate.mono (hears.asked c))
  · exact abides_pure _

/-! ## Requests -/

/-- A request that may be taken back was given its id in time. -/
def MayWithdraw (w : World) (c n : Nat) (cancellation : Option Nat) : Prop :=
  cancellation = none ∨ w.asked c n

theorem MayWithdraw.later {cancellation : Option Nat} (h : MayWithdraw w c n cancellation)
    (hears : Hears me w w') : MayWithdraw w' c n cancellation := h.imp_right (hears.asked c n)

theorem quiet_forget (id : RequestId) : w.Quiet me (w.hub.onClient c (·.forget id)) :=
  .onClient rfl (Nat.le_refl _) fun _ _ ha => ha

theorem abides_forget (id : RequestId) :
    (modify (Hub.onClient c (·.forget id)) : Program Unit).Abides (custom me) w :=
  abides_quiet fun _ _ _ => quiet_forget id

theorem abides_withdraw (hran : w.ran c) (hn : w.asked c n) :
    (withdraw c (.number n)).Abides (custom me) w :=
  .bind (abides_forget _) fun _ =>
    .bind (abides_notify hran (by decide) (.withdrawal n hn)) fun _ => abides_pure _

theorem abides_awaitAnswer (method : String) {cancellation : Option Nat} (timeout : Duration)
    (hran : w.ran c) (hwithdraw : MayWithdraw w c n cancellation) :
    (awaitAnswer c (.number n) method cancellation timeout).Abides (custom me) w := by
  refine abides_quietGet (fun _ _ _ => .of_eq rfl rfl rfl rfl) fun deadline => ?_
  refine abides_waitUntil fun w₁ _ hears₁ _ => abides_get fun w₂ _ hears₂ => ?_
  have hears : Hears me w w₂ := hears₁.trans hears₂
  dsimp only
  split
  · rename_i hwithdrawn
    refine abides_withdraw (hears.ran c hran) ((hwithdraw.later hears).resolve_left ?_)
    rintro rfl
    cases hwithdrawn
  split
  · refine abides_quietGet (fun w₃ _ hears₃ => ?_) fun answer => ?_
    · exact .onClient rfl (Nat.le_refl _) fun hnot =>
        absurd ((hears.trans hears₃).ran c hran) hnot
    · cases answer <;> exact abides_pure _
  · exact .bind (abides_forget _) fun _ => abides_pure _

theorem abides_exchange {method : String} {params : Json} {cancellation : Option Nat}
    (timeout : Duration) (hran : w.ran c) (hwithdraw : MayWithdraw w c n cancellation)
    (hwrite : (write c (.request ⟨Message.protocolVersion, .number n, method, params⟩)).Abides
      (custom me) w) :
    (exchange c (.number n) method params cancellation timeout).Abides (custom me) w := by
  refine .bind hwrite fun r => ?_
  cases r with
  | error e => exact .bind (abides_forget _) fun _ => abides_pure _
  | ok => exact abides_awaitAnswer method timeout hran hwithdraw

theorem abides_tracking {cancellation : Option Nat} (r : PendingRequest) {p : Program α}
    (hp : p.Abides (custom me) w) : (tracking cancellation r p).Abides (custom me) w := by
  cases cancellation with
  | none => exact hp
  | some i =>
    refine abides_quietGet (fun _ _ _ => .of_eq rfl rfl rfl rfl) fun token => ?_
    exact hp.ensuring fun _ _ _ => .of_eq rfl rfl rfl rfl

theorem quiet_register (id : RequestId) : w.Quiet me (w.hub.fromClient c (·.register id)).2 := by
  have hsame : ∀ x : Client, (x.register id).2.link = x.link ∧ (x.register id).2.nextId = x.nextId ∧
      (x.register id).2.answers = x.answers := fun x => by
    unfold Client.register
    split <;> exact ⟨rfl, rfl, rfl⟩
  obtain ⟨hlink, hid, hanswers⟩ := hsame (w.hub.client c)
  exact .fromClient hlink (Nat.le_of_eq hid.symm) fun _ a ha => by rwa [hanswers]

/-- The world once a request has its id. -/
def numbered (me : Nat) (w : World) (c : Nat) : World :=
  w.move me (w.hub.fromClient c takeId).2

theorem quiet_takeId : w.Quiet me (w.hub.fromClient c takeId).2 :=
  .onClient rfl (Nat.le_succ _) fun _ _ ha => ha

/-- A request whose message may be written once it has its id. -/
theorem obeys_request {method : String} {params : Json} {cancellation : Option Nat}
    (timeout : Duration) (hw : w.Inv) (hran : w.ran c)
    (hwithdraw : MayWithdraw (numbered me w c) c (w.hub.client c).nextId cancellation)
    (hwrite : (write c (.request ⟨Message.protocolVersion, .number (w.hub.client c).nextId, method,
      params⟩)).Abides (custom me) (numbered me w c)) :
    (request c method params cancellation timeout).Obeys (custom me) w := by
  refine obeys_get hw ?_
  split
  · trivial
  split
  · trivial
  have hmay : w.May me (w.hub.fromClient c takeId).2 := quiet_takeId.may hw
  have hbegun : Hears me w (numbered me w c) := hmay.1.hears hw
  refine obeys_modifyGet hmay (Abides.obeys ?_ (hmay.1.inv hw))
  refine .bind abides_wait fun _ => ?_
  refine abides_quietGet (fun _ _ _ => quiet_register _) fun registered => ?_
  split
  · exact abides_tracking _ (abides_exchange timeout (hbegun.ran c hran) hwithdraw hwrite)
  · exact abides_pure _

theorem asked_numbered (hlive : w.hub.Live c) (hc : c < w.hub.clients.length) :
    (numbered me w c).asked c (w.hub.client c).nextId := by
  refine .inr ⟨hlive, ?_⟩
  rw [Hub.fromClient, Hub.client_onClient, if_pos ⟨rfl, hc⟩]
  exact Nat.lt_succ_self _

/-! ## Using clients -/

theorem quiet_onClient {f : Client → Client} (hlink : ∀ x, (f x).link = x.link)
    (hid : ∀ x, (f x).nextId = x.nextId) (hanswers : ∀ x, (f x).answers = x.answers) :
    w.Quiet me (w.hub.onClient c f) :=
  .onClient (hlink _) (Nat.le_of_eq (hid _).symm) fun _ a ha => by rwa [hanswers]

theorem quiet_hold : w.Quiet me (w.hub.onClient c hold) :=
  quiet_onClient (f := hold) (fun _ => rfl) (fun _ => rfl) fun _ => rfl

theorem quiet_release : w.Quiet me (w.hub.onClient c release) :=
  quiet_onClient (f := release) (fun _ => rfl) (fun _ => rfl) fun _ => rfl

/-- The client is used for a program that may begin as soon as it is. -/
theorem obeys_holding {p : Program α} (hw : w.Inv)
    (hp : ∀ w₁ : World, w₁.Inv → w₁.hub = w.hub.onClient c hold → p.Obeys (custom me) w₁) :
    (holding c p).Obeys (custom me) w := by
  have hmay : w.May me (w.hub.onClient c hold) := quiet_hold.may hw
  exact ⟨hmay, Obeys.ensuring (fun _ _ _ => quiet_release) (hp _ (hmay.1.inv hw) rfl)
    (hmay.1.inv hw)⟩

/-! ## Asking -/

/-- A session is asked while it is started, and the id that the request takes was given out then. -/
theorem abides_ask {method : String} (hmethod : method ≠ "initialize" ∧ method ≠ "shutdown")
    (s : Nat) (params : Json) (cancellation : Option Nat) (read : Json → Option α) :
    (Session.ask s method params cancellation read).Abides (custom me) w := by
  refine fun w₀ hw₀ _ => obeys_get hw₀ ?_
  cases hclient : (w₀.hub.session s).client? with
  | error e => trivial
  | ok c =>
    refine Obeys.bind (obeys_holding hw₀ fun w₁ hw₁ hhub => ?_) hw₀ fun _ => abides_pure _
    have hlive : w₁.hub.Live c := ⟨s, by rw [hhub]; exact hclient⟩
    have hran : w₁.ran c := hw₁.spoke c hlive.speaks
    have hasked : (numbered me w₁ c).asked c (w₁.hub.client c).nextId :=
      asked_numbered hlive (hw₁.known c hran)
    exact obeys_gets hw₁ (obeys_request _ hw₁ hran (.inr hasked)
      (abides_write (.inl hran) (Message.isPlain_request hmethod.1 hmethod.2)
        (.request _ _ rfl hasked)))

theorem abides_usagesIn (s : Nat) (uri : String) (position : Position) (cancellation : Nat)
    (kind : UsageKind) :
    (Feature.usagesIn s uri position cancellation kind).Abides (custom me) w :=
  .bind (abides_ask kind.method_ne s _ _ _) fun _ => abides_pure _

theorem abides_requestTo (feature : Feature) (uri : String) (cancellation s : Nat) :
    (Feature.requestTo feature uri cancellation s).Abides (custom me) w := by
  refine abides_get fun w' _ _ => ?_
  dsimp only
  split
  · refine .bind (abides_get fun w'' _ _ => ?_) fun _ => abides_pure _
    refine .bind (abides_all fun p hp => ?_) fun _ => abides_pure _
    obtain ⟨kind, -, rfl⟩ := List.mem_map.mp hp
    exact abides_usagesIn s uri _ cancellation kind
  · exact .bind (abides_ask feature.method_ne s _ _ _) fun _ => abides_pure _

/-! ## Asking several servers -/

theorem quiet_report (method : String) (failures : List ServerFailure) :
    w.Quiet me (Merge.report method failures w.hub) := by
  have hreport : ∀ h : Hub, (Merge.report method failures h).clients = h.clients ∧
      (Merge.report method failures h).links = h.links ∧
      (Merge.report method failures h).sessions = h.sessions ∧
      (Merge.report method failures h).locks = h.locks := by
    unfold Merge.report
    induction failures with
    | nil => exact fun h => ⟨rfl, rfl, rfl, rfl⟩
    | cons f rest ih => exact fun h => ih (h.emit _)
  obtain ⟨hclients, hlinks, hsessions, hlocks⟩ := hreport w.hub
  exact .of_eq hclients hlinks hsessions hlocks

theorem abides_call (method : String) (cancellation : Nat)
    {requests : List (Program (ServerAnswer α))}
    (hrequests : ∀ p ∈ requests, ∀ w, p.Abides (custom me) w) :
    (Merge.call method cancellation requests).Abides (custom me) w := by
  unfold Merge.call
  split
  · exact abides_pure _
  refine Abides.onAbandon (fun _ _ _ => .of_eq rfl rfl rfl rfl) ?_
  refine (abides_all fun p hp => hrequests p hp w).pauseWhen_bind (fun w' rest hw _ hrest => ?_)
    fun w' answers hw _ => ?_
  · refine (abides_quietGet (fun _ _ _ => .of_eq rfl rfl rfl rfl) fun deadline => ?_).obeys hw
    exact (hrest.giveUpWhen _).bind fun _ => abides_pure _
  · refine obeys_get hw ?_
    split
    · trivial
    · exact ((abides_quiet fun _ _ _ => quiet_report _ _).bind fun _ => abides_pure _).obeys hw

theorem abides_run (r : FeatureRequest) : r.run.Abides (custom me) w := by
  refine abides_call _ _ fun p hp w => ?_
  obtain ⟨s, -, rfl⟩ := List.mem_map.mp hp
  exact abides_requestTo r.feature r.uri r.cancellation s

/-! ## Listening -/

theorem isWord_answerTo (folders : List WorkspaceFolder) (settings : Option Json) (r : Request) :
    (answerTo folders settings r).isWord = false := by
  unfold answerTo
  split <;> rfl

theorem quiet_deliver (id : RequestId) (r : Response) :
    w.Quiet me (w.hub.onClient c (·.deliver id r)) := by
  have hdeliver : ∀ x : Client, (x.deliver id r).link = x.link ∧
      (x.deliver id r).nextId = x.nextId ∧ ∀ a ∈ x.answers, a ∈ (x.deliver id r).answers := by
    intro x
    unfold Client.deliver
    split
    · exact ⟨rfl, rfl, fun a ha => List.mem_append_left _ ha⟩
    · exact ⟨rfl, rfl, fun a ha => ha⟩
  obtain ⟨hlink, hid, hanswers⟩ := hdeliver (w.hub.client c)
  exact .onClient hlink (Nat.le_of_eq hid.symm) fun _ => hanswers

theorem quiet_heed (n : Notification) : w.Quiet me (w.hub.onClient c (·.heed n)) := by
  have hheed : ∀ x : Client, (x.heed n).link = x.link ∧ (x.heed n).nextId = x.nextId ∧
      (x.heed n).answers = x.answers := by
    intro x
    unfold Client.heed
    split
    · split <;> exact ⟨rfl, rfl, rfl⟩
    · exact ⟨rfl, rfl, rfl⟩
  obtain ⟨hlink, hid, hanswers⟩ := hheed (w.hub.client c)
  exact .onClient hlink (Nat.le_of_eq hid.symm) fun _ a ha => by rwa [hanswers]

theorem quiet_breakDown : w.Quiet me (w.hub.onClient c breakDown) := by
  have hsame : ∀ x : Client, x.breakDown.link = x.link ∧ x.breakDown.nextId = x.nextId ∧
      x.breakDown.answers = x.answers := by
    intro x
    unfold Client.breakDown
    split <;> exact ⟨rfl, rfl, rfl⟩
  obtain ⟨hlink, hid, hanswers⟩ := hsame (w.hub.client c)
  exact .onClient hlink (Nat.le_of_eq hid.symm) fun _ a ha => by rwa [hanswers]

theorem abides_heedMessage (m : Message) : (heedMessage c m).Abides (custom me) w := by
  cases m with
  | request r =>
    refine abides_get fun w' _ _ => ?_
    exact .bind (abides_write_answer (isWord_answerTo ..)) fun _ => abides_pure _
  | notification n => exact abides_quiet fun _ _ _ => quiet_heed n
  | response r =>
    obtain ⟨version, id, result, error⟩ := r
    cases id with
    | none => exact abides_pure ()
    | some id =>
      refine abides_waitUntil fun _ _ _ _ => ?_
      exact abides_quiet fun _ _ _ => quiet_deliver id _

theorem abides_heedAll (bodies : List String) : (heedAll c bodies).Abides (custom me) w := by
  induction bodies with
  | nil => exact abides_pure _
  | cons body rest ih =>
    refine .bind ?_ fun _ => ih
    unfold heedBody
    split
    · exact abides_heedMessage _
    · exact abides_pure _

theorem abides_buffer (buffer : Frame.Bytes) :
    (modify (Hub.onClient c fun client => { client with buffer }) : Program Unit).Abides
      (custom me) w :=
  abides_quiet fun _ _ _ => .onClient rfl (Nat.le_refl _) fun _ _ ha => ha

theorem abides_heedFrames (bytes : Frame.Bytes) : (heedFrames c bytes).Abides (custom me) w := by
  refine abides_gets fun w' _ _ => ?_
  refine .bind (abides_heedAll _) fun _ => ?_
  split
  · exact .bind (abides_buffer _) fun _ => abides_pure _
  · exact .bind (abides_buffer _) fun _ => abides_pure _
  · exact .bind (abides_quiet fun _ _ _ => quiet_breakDown) fun _ => abides_pure _

theorem words_read (l : Link) (limit : Nat) : (l.read limit).2.words = l.words := by
  unfold Link.read
  split <;> rfl

theorem quiet_read (l : Nat) : w.Quiet me (w.hub.fromLink l (·.read readLimit)).2 :=
  .onLink (f := fun _ => ((w.hub.link l).read readLimit).2) (words_read _ _)

theorem abides_listen : (listen c).Abides (custom me) w := by
  have hclient : ∀ (w : World) (f : Client → Client), (∀ x, (f x).link = x.link) →
      (∀ x, (f x).nextId = x.nextId) → (∀ x, (f x).answers = x.answers) →
      (modify (Hub.onClient c f) : Program Unit).Abides (custom me) w :=
    fun w f hlink hid hanswers => abides_quiet fun _ _ _ => quiet_onClient hlink hid hanswers
  refine .bind (Abides.untilStopped ?_ _) fun _ => abides_pure _
  refine abides_waitUntil fun w₁ _ _ _ =>
    abides_quietGet (fun _ _ _ => quiet_read _) fun arrival => ?_
  cases arrival with
  | bytes received => exact abides_heedFrames received
  | ended =>
    refine .bind (hclient w₁ close (fun _ => rfl) (fun _ => rfl) fun _ => rfl) fun _ => ?_
    refine abides_waitUntil fun w₂ _ _ _ => ?_
    exact .bind (hclient w₂ forgetAll (fun _ => rfl) (fun _ => rfl) fun _ => rfl) fun _ =>
      abides_pure _

end Manners

end LanguageHub
