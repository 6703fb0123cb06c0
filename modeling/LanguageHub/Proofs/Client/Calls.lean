import LanguageHub.Client.Reader
import LanguageHub.Proofs.Client.Writing
import LanguageHub.Proofs.Hub.Fading

/-!
# What a client does for itself

Requests, answers, the reader and all notifications that are not about documents leave what
servers hear of a document as it is.
-/

namespace LanguageHub

open Routine Pact HubMoment

/-! ## What is not about documents -/

namespace Message

theorem isAbout_ofNotification {method : String} (h : method ∉ documentMethods) (u : String)
    (params : Json) : (ofNotification method params).isAbout u = false := by
  simp [isAbout, ofNotification, documentUri?, h]

@[simp] theorem isAbout_request (u : String) (r : Request) :
    (Message.request r).isAbout u = false := rfl

end Message

theorem Client.isAbout_answerTo (u : String) (folders : List WorkspaceFolder)
    (settings : Option Json) (r : Request) :
    (Client.answerTo folders settings r).isAbout u = false := by
  unfold Client.answerTo
  split <;> rfl

namespace Client

variable {s : Nat} {u : String} {a : Actor} {P : Scene → Prop} {c : Nat} {α : Type}

/-! ## Changes of a client -/

theorem neutral_onClient {f : Client → Client} (hlink : ∀ x, (f x).link = x.link)
    (hopen : ∀ x, (f x).isOpen = x.isOpen) :
    Neutral s u a P (modify (Hub.onClient c f) : Program Unit) :=
  neutral_modify fun _ => Hub.outline_onClient hlink hopen

theorem neutral_fromClient {f : Client → α × Client} (hlink : ∀ x, (f x).2.link = x.link)
    (hopen : ∀ x, (f x).2.isOpen = x.isOpen) :
    Neutral s u a P (modifyGet (Hub.fromClient c f) : Program α) :=
  neutral_modifyGet fun _ => Hub.outline_fromClient (hlink _) (hopen _)

theorem neutral_close : Neutral s u a P (modify (Hub.onClient c close) : Program Unit) :=
  fun m hm _ => by
    refine neutralAt_fade m.scene.state m.scene.speaker _ m.scene.isDue hm (Hub.outline_close c)
      ⟨.inl rfl, .inl rfl, fun d hd => ?_, fun _ h => h⟩ (.inl rfl)
    split at hd
    · cases hd
    · exact hd

theorem neutral_holding {p : Program α} (hP : Stable P) (hp : Neutral s u a P p) :
    Neutral s u a P (holding c p) :=
  .bind hP (neutral_onClient (fun _ => rfl) fun _ => rfl) fun _ =>
    .ensuring hp fun _ => Hub.outline_onClient (fun _ => rfl) fun _ => rfl

/-! ## Calls -/

section Calls

variable (hP : Stable P) (hc : ∀ x, P x → c < x.clients)

include hP hc

theorem neutral_notify {method : String} (hmethod : method ∉ Message.documentMethods)
    (params : Json) : Neutral s u a P (notify c method params) :=
  .bind hP (neutral_gets _) fun client => by
    split
    · exact neutral_write (Message.isAbout_ofNotification hmethod u params) hc
    · exact neutral_pure _

theorem neutral_withdraw (id : RequestId) : Neutral s u a P (withdraw c id) :=
  .bind hP (neutral_onClient (fun _ => rfl) fun _ => rfl) fun _ =>
    .bind hP (neutral_notify hP hc (by decide) _) fun _ => neutral_pure _

theorem neutral_awaitAnswer (id : RequestId) (method : String) (cancellation : Option Nat)
    (timeout : Duration) : Neutral s u a P (awaitAnswer c id method cancellation timeout) :=
  .bind hP (neutral_modifyGet fun _ => rfl) fun deadline =>
    .bind hP (neutral_waitUntil _) fun _ => .bind hP neutral_get fun h => by
      split
      · exact neutral_withdraw hP hc id
      split
      · refine .bind hP (neutral_fromClient (fun _ => rfl) fun _ => rfl) fun r => ?_
        cases r <;> exact neutral_pure _
      · exact .bind hP (neutral_onClient (fun _ => rfl) fun _ => rfl) fun _ => neutral_pure _

theorem neutral_exchange (id : RequestId) (method : String) (params : Json)
    (cancellation : Option Nat) (timeout : Duration) :
    Neutral s u a P (exchange c id method params cancellation timeout) :=
  .bind hP (neutral_write (Message.isAbout_request u _) hc) fun r => by
    cases r with
    | error e =>
      exact .bind hP (neutral_onClient (fun _ => rfl) fun _ => rfl) fun _ => neutral_pure _
    | ok => exact neutral_awaitAnswer hP hc id method cancellation timeout

omit hc in
theorem neutral_tracking {cancellation : Option Nat} (r : PendingRequest) {p : Program α}
    (hp : Neutral s u a P p) : Neutral s u a P (tracking cancellation r p) := by
  cases cancellation with
  | none => exact hp
  | some i =>
    exact .bind hP (neutral_modifyGet fun _ => rfl) fun token => .ensuring hp fun _ => rfl

theorem neutral_request (method : String) (params : Json) (cancellation : Option Nat)
    (timeout : Duration) : Neutral s u a P (request c method params cancellation timeout) :=
  .bind hP neutral_get fun h => by
    split
    · exact neutral_pure _
    split
    · exact neutral_pure _
    · refine .bind hP (neutral_fromClient (fun _ => rfl) fun _ => rfl) fun id =>
        .bind hP neutral_giveWay fun _ =>
          .bind hP (neutral_fromClient (fun x => ?_) fun x => ?_) fun registered => ?_
      · unfold register
        split <;> rfl
      · unfold register
        split <;> rfl
      · split
        · exact neutral_tracking hP _ (neutral_exchange hP hc id method params cancellation timeout)
        · exact neutral_pure _

theorem neutral_shutDown (timeout : Duration) : Neutral s u a P (shutDown c timeout) :=
  .bind hP (neutral_request hP hc _ _ _ _) fun _ =>
    .bind hP (neutral_notify hP hc (by decide) _) fun _ => neutral_pure _

/-! ## The reader -/

theorem neutral_heedMessage (m : Message) : Neutral s u a P (heedMessage c m) := by
  cases m with
  | response r =>
    cases hid : r.id with
    | none =>
      simp only [heedMessage, hid]
      exact neutral_pure _
    | some id =>
      simp only [heedMessage, hid]
      refine .bind hP neutral_giveWay fun _ => neutral_onClient (fun x => ?_) fun x => ?_
      · unfold deliver
        split <;> rfl
      · unfold deliver
        split <;> rfl
  | request r =>
    exact .bind hP neutral_get fun h =>
      .bind hP (neutral_write (isAbout_answerTo u _ _ r) hc) fun _ => neutral_pure _
  | notification n =>
    refine neutral_onClient (fun x => ?_) fun x => ?_
    · unfold heed
      split
      · split <;> rfl
      · rfl
    · unfold heed
      split
      · split <;> rfl
      · rfl

theorem neutral_heedAll (bodies : List String) : Neutral s u a P (heedAll c bodies) := by
  induction bodies with
  | nil => exact neutral_pure _
  | cons body rest ih =>
    refine .bind hP ?_ fun _ => ih
    unfold heedBody
    split
    · exact neutral_heedMessage hP hc _
    · exact neutral_pure _

theorem neutral_heedFrames (bytes : Frame.Bytes) : Neutral s u a P (heedFrames c bytes) := by
  refine .bind hP (neutral_gets _) fun client => ?_
  split
  rename_i bodies stop _
  refine .bind hP (neutral_heedAll hP hc bodies) fun _ => ?_
  cases stop with
  | waiting rest =>
    exact .bind hP (neutral_onClient (fun _ => rfl) fun _ => rfl) fun _ => neutral_pure _
  | cleared fault =>
    exact .bind hP (neutral_onClient (fun _ => rfl) fun _ => rfl) fun _ => neutral_pure _
  | broken =>
    refine .bind hP (neutral_onClient (fun x => ?_) fun x => ?_) fun _ => neutral_pure _
    · unfold breakDown
      split <;> rfl
    · unfold breakDown
      split
      · rename_i hopen
        rw [hopen]
        rfl
      · rfl

theorem neutral_readOnce : Neutral s u a P (readOnce c) := by
  refine .bind hP (neutral_waitUntil _) fun _ => .bind hP (neutral_modifyGet fun h => ?_)
    fun arrival => ?_
  · refine Hub.outline_fromLink ?_ ?_
    · unfold Link.read
      split <;> rfl
    · unfold Link.read
      split <;> rfl
  · cases arrival with
    | bytes received => exact neutral_heedFrames hP hc received
    | ended =>
      exact .bind hP neutral_close fun _ => .bind hP neutral_giveWay fun _ =>
        .bind hP (neutral_onClient (fun _ => rfl) fun _ => rfl) fun _ => neutral_pure _

/-- The reader goes on or ends, and nobody notices. -/
theorem neutral_listen : Neutral s u a P (listen c) :=
  .bind hP (.untilStopped (neutral_readOnce hP hc) hP fun _ => rfl) fun _ => neutral_pure _

end Calls

end Client

end LanguageHub
