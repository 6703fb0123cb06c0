import LanguageHub.Proofs.Client.Writing
import LanguageHub.Proofs.Manners.Orderly
import LanguageHub.Session.Documents

/-!
# Speaking in time

A task that finds a session started comes for the queue of the client in the same turn. Its ticket
is early, and with it the task may speak even if the session has stopped meanwhile: whoever says
goodbye stands behind it. So everything that is told about documents is told before the goodbye.
-/

namespace LanguageHub

theorem DocumentNotice.method_ne (n : DocumentNotice) : n.method ≠ "initialized" := by
  cases n <;> simp [method]

namespace Manners

open Routine Pact Client

variable {me c k s t : Nat} {α β : Type} {w w' : World} {m m' : Moment (pact me)}
  {message : Message} {J : World → Prop}

theorem World.MaySay.known (hw : w.Inv) (h : w.MaySay me c message) :
    c < w.hub.clients.length := by
  cases h with
  | introduction r hfresh => exact hfresh.known
  | introduced r hfresh => exact hfresh.known
  | early t hran => exact hw.known c hran
  | late hran => exact hw.known c hran
  | farewell r _ hparted => exact hw.known c hparted.left.1

theorem World.MaySay.isWord (h : w.MaySay me c message) : message.isWord = true := by
  cases h with
  | introduction | introduced | farewell => rfl
  | early t _ hplain => exact hplain.word
  | late _ hplain => exact hplain.word

/-! ## A word -/

/-- Of an introduction that is over the answer has come before this turn. -/
theorem sound_say {link : Link} (hm : m.Sound) (hsay : World.MaySay m.now me c message)
    (hwords : link.words = (World.hub m.now).said c ++ [message]) :
    (m.set (m.state.onLink (m.state.client c).link fun _ => link)).Sound ∧
      (Calm m → Calm (m.set (m.state.onLink (m.state.client c).link fun _ => link))) := by
  have hw : World.Inv m.now := hm.inv
  have hguarantee : Guarantee me m.start m.now := hm.guarantee
  obtain ⟨hacts, hsaid⟩ := acts_say hw (hsay.known hw) hsay hwords
  refine ⟨sound_set hm hacts (fun d r hr => ?_) fun _ _ hspeaks => hspeaks,
    fun hcalm d hran => hcalm d (hran.elim id (hw.spoke d))⟩
  by_cases hd : d = c
  · subst hd
    right
    cases hsay with
    | introduction r' _ hnone => cases hr.1.symm.trans hnone
    | introduced r' _ hone hanswered =>
      cases hr.1.symm.trans hone
      exact hguarantee.answered d r hanswered
    | early t hran => exact absurd hran (hw.not_ran_of_answers hr)
    | late hran => exact absurd hran (hw.not_ran_of_answers hr)
    | farewell r' _ hparted => exact absurd hparted.left.1 (hw.not_ran_of_answers hr)
  · exact .inl ⟨(hsaid d hr.known hd).trans hr.1, hr.2⟩

/-- The message was begun while `J` held. -/
def Said (me c : Nat) (message : Message) (J : World → Prop) (w' : World) : Prop :=
  ∃ (w : World) (link : Link), w.Inv ∧ J w ∧ link.words = w.hub.said c ++ [message] ∧
    Hears me (w.move me (w.hub.onLink (w.hub.client c).link fun _ => link)) w'

/-- The message was not begun; `J` was true in the end. -/
def Unsaid (me : Nat) (J : World → Prop) (w' : World) : Prop :=
  ∃ w : World, w.Inv ∧ J w ∧ Hears me w w'

/-- What comes of writing a message. -/
structure Tried (c : Nat) (message : Message) (J : World → Prop) (m m' : Moment (pact me))
    (r : Except HubError Unit) : Prop where
  sound : m'.Sound
  calm : Calm m → Calm m'
  said : Said me c message J m'.now ∨ r ≠ .ok () ∧ Unsaid me J m'.now

section Writing

variable (hstable : ∀ w w', J w → Rely me w w' → J w')
  (hsay : ∀ w, w.Inv → J w → w.MaySay me c message)

include hstable hsay

/-- The first round begins the message or fails, and in the others nothing more is said. -/
theorem keeps_transfer {size : Nat} (fuel : Nat) (hsize : 0 < size) (hm : m.Sound)
    (hJ : J m.now) : (transfer c message size (fuel + 1) 0).Keeps (fun _ _ => True) m
      fun m' r => Tried c message J m m' r := by
  rw [transfer_succ]
  refine ⟨hm, fun w hw hrely => ⟨trivial, fun hready _ => ?_⟩⟩
  have hJw := hstable _ w hJ hrely
  have hmay := hsay w hw hJw
  have hresume : (Moment.resume w : Moment (pact me)).Sound := sound_resume hw
  have hwords := Link.words_write (w.hub.linkOf c) message size 0
  change (carryOn c message size fuel 0 ((w.hub.linkOf c).write message size 0).1).Keeps _
    ((Moment.resume w : Moment (pact me)).set
      (w.hub.onLink (w.hub.client c).link fun _ => ((w.hub.linkOf c).write message size 0).2)) _
  cases hdue : StreamFault.due? (w.hub.linkOf c).writeFault with
  | some reason =>
    rw [Link.write_of_due message size 0 hdue]
    have hquiet : w.Quiet me (w.hub.onLink (w.hub.client c).link fun _ => w.hub.linkOf c) :=
      .onLink (f := fun _ => w.hub.linkOf c) rfl
    have hend := continues_quiet hresume hquiet
    exact ⟨hend.sound, fun _ => hend.calm (calm_resume w),
      .inr ⟨nofun, w, hw, hJw, hend.hears⟩⟩
  | none =>
    obtain ⟨count, hpos, -, hok, -⟩ := Link.write_of_not_due message hdue hready hsize
      (List.append_nil _).symm
    rw [if_pos ⟨rfl, hmay.isWord, by rw [hok]; rfl⟩] at hwords
    obtain ⟨hsound, hcalm⟩ := sound_say hresume hmay hwords
    have hrest : (carryOn c message size fuel 0 (.ok count)).Abides (custom me)
        (w.move me (w.hub.onLink (w.hub.client c).link fun _ =>
          ((w.hub.linkOf c).write message size 0).2)) := by
      rw [carryOn]
      split
      · exact abides_pure _
      · exact abides_transfer _ _ _ fun _ _ _ hnone => absurd hnone (by omega)
    rw [hok]
    refine (orderly_of_abides hrest hsound).mono fun m' r hend => ⟨hend.sound, fun _ =>
      hend.calm (hcalm (calm_resume w)), .inl ⟨w, _, hw, hJw, hwords, hend.hears⟩⟩

/-- Whoever writes has a ticket of its own meanwhile, with which `J` may begin. -/
theorem keeps_write (hm : m.Sound)
    (hJ : J (World.move me m.now (Hub.enterLock (.writer c) m.state).2)) :
    (write c message).Keeps (fun _ _ => True) m fun m' r => Tried c message J m m' r := by
  intro _
  have henter := continues_enter hm (.writer c)
  -- The ticket must still be the task's own in the end, whatever it has said.
  let entered := World.move me m.now (Hub.enterLock (.writer c) m.state).2
  let J' (w : World) : Prop := J w ∧ Grows entered w
  have hstable' : ∀ w w', J' w → Rely me w w' → J' w' := fun w w' h hrely =>
    ⟨hstable w w' h.1 hrely, h.2.trans hrely.grows⟩
  obtain ⟨fuel, hfuel⟩ := Nat.exists_eq_succ_of_ne_zero (Nat.ne_of_gt message.frame_pos)
  refine keeps_ensuring ?_
  refine ⟨henter.sound, fun w hw hrely => ⟨trivial, fun _ => ?_⟩⟩
  change (transfer c message message.frame.length message.frame.length 0).Keeps _
    (Moment.resume w : Moment (pact me)) _
  rw [hfuel]
  have hkeeps := keeps_transfer (J := J') hstable' (fun w hw h => hsay w hw h.1) fuel
    (Nat.succ_pos fuel) (sound_resume hw) ⟨hstable _ w hJ hrely, hrely.grows⟩
  refine hkeeps.mono fun m' r htried _ => ?_
  have hgrows : Grows entered m'.now := by
    rcases htried.said with ⟨w₁, link, hw₁, ⟨hJ₁, hgrows⟩, hwords, hears⟩ |
      ⟨-, w₁, -, ⟨-, hgrows⟩, hears⟩
    · have hmay := hsay w₁ hw₁ hJ₁
      have hacts := (acts_say hw₁ (hmay.known hw₁) hmay hwords).1
      exact hgrows.trans ((hacts.grows hw₁).trans hears.grows)
    · exact hgrows.trans hears.grows
  have hleave := continues_quiet htried.sound (quiet_leave htried.sound.inv hgrows)
  refine ⟨hleave.sound, fun _ => hleave.calm (htried.calm (calm_resume w)), ?_⟩
  rcases htried.said with ⟨w₁, link, hw₁, h, hwords, hears⟩ | ⟨hr, w₁, hw₁, h, hears⟩
  · exact .inl ⟨w₁, link, hw₁, h.1, hwords, hears.trans hleave.hears⟩
  · exact .inr ⟨hr, w₁, hw₁, h.1, hears.trans hleave.hears⟩

end Writing

/-! ## In time -/

/-- The task stands in the client's queue with a ticket from a time when a session was started. -/
structure InTime (me c t : Nat) (w : World) : Prop where
  ran : w.ran c
  early : w.early c t
  mem : t ∈ (w.hub.queue c).tickets
  issued : t < (w.hub.queue c).next
  owner : w.owner c t = me

theorem InTime.later (h : InTime me c t w) (hrely : Rely me w w') : InTime me c t w' where
  ran := hrely.ran c h.ran
  early := hrely.early c t h.early
  mem := hrely.stays c t h.mem h.issued h.owner
  issued := Nat.lt_of_lt_of_le h.issued (hrely.next c)
  owner := (hrely.owner c t h.issued).trans h.owner

theorem inTime_enter (hw : w.Inv) (hlive : w.hub.Live c) :
    InTime me c (w.hub.queue c).next (w.move me (Hub.enterLock (.writer c) w.hub).2) := by
  have hqueue : (Hub.enterLock (.writer c) w.hub).2.queue c = (w.hub.queue c).enter.2 :=
    (Hub.lock_setLock ..).trans (if_pos rfl)
  have hissued : (w.hub.queue c).next < ((Hub.enterLock (.writer c) w.hub).2.queue c).next := by
    rw [hqueue, Lock.enter_next]
    exact Nat.lt_succ_self _
  refine ⟨.inl (hw.spoke c hlive.speaks), .inr ⟨hlive, hissued⟩, ?_, hissued,
    owner_entered (.refl _)⟩
  change _ ∈ ((Hub.enterLock (.writer c) w.hub).2.queue c).tickets
  rw [hqueue, (hw.ordered c).tickets_enter]
  exact List.mem_append_right _ (List.mem_singleton_self _)

theorem orderly_write (hlive : (World.hub m.now).Live c) (hplain : message.IsPlain) :
    IsOrderly (write c message) m := by
  intro hm
  have hw : World.Inv m.now := hm.inv
  have henter := continues_enter hm (.writer c)
  let entered := World.move me m.now (Hub.enterLock (.writer c) m.state).2
  let t := (m.state.queue c).next
  have hsay : ∀ w, InTime me c t w → w.MaySay me c message := fun w h =>
    .early t h.ran hplain h.mem h.early
  have hkeeps := keeps_write (J := fun w => InTime me c t w ∧ Hears me entered w)
    (fun _ _ h hrely => ⟨h.1.later hrely, h.2.trans (hears_of_rely hrely)⟩)
    (fun w _ h => hsay w h.1) hm ⟨inTime_enter hw hlive, .refl _⟩
  refine hkeeps.mono fun m' r htried => ⟨htried.sound, henter.hears.trans ?_, htried.calm⟩
  rcases htried.said with ⟨w₁, link, hw₁, ⟨hin, hears₁⟩, hwords, hears⟩ |
    ⟨-, w₁, -, ⟨-, hears₁⟩, hears⟩
  · have hmay := may_say hw₁ hin.ran (hsay w₁ hin) hwords
    exact hears₁.trans ((hmay.1.hears hw₁).trans hears)
  · exact hears₁.trans hears

theorem orderly_notify {method : String} {params : Json} (hlive : (World.hub m.now).Live c)
    (hmethod : method ≠ "initialized") : IsOrderly (notify c method params) m := by
  refine orderly_gets ?_
  split
  · exact orderly_write hlive (Message.isPlain_ofNotification hmethod params)
  · exact orderly_pure _

/-- A client is held for a word while its session is started. -/
theorem orderly_holding_notify {method : String} {params : Json}
    (hclient : ((World.hub m.now).session s).client? = .ok c) (hmethod : method ≠ "initialized") :
    IsOrderly (holding c (notify c method params)) m :=
  orderly_holding (orderly_notify ⟨s, hclient⟩ hmethod)

/-! ## Telling -/

theorem orderly_tell (s : Nat) (n : DocumentNotice) : IsOrderly (Session.tell s n) m := by
  refine orderly_get ?_
  cases hclient : (m.state.session s).client? with
  | error e => exact orderly_pure _
  | ok c =>
    refine .bind (orderly_holding_notify hclient n.method_ne) fun r _ _ => ?_
    cases r <;> exact orderly_pure _

theorem orderly_emit (f : Hub → EventKind) :
    IsOrderly (modify fun h => h.emit (f h)) m :=
  orderly_quiet fun _ _ => .of_eq rfl rfl rfl rfl

theorem orderly_sendOpen (s k : Nat) : IsOrderly (Session.sendOpen s k) m := by
  refine orderly_get (.bind (orderly_tell s _) fun told _ _ => ?_)
  cases told
  · exact orderly_pure _
  · exact orderly_emit _

theorem orderly_openDocument (s : Nat) (sync : Synchronizer) :
    IsOrderly (Session.openDocument s sync) m := by
  refine orderly_modifyGet (fun hm => continues_quiet hm ?_) ?_
  · let added : Hub := { m.state with synchronizers := m.state.synchronizers ++ [sync] }
    let attach (x : Session) : Session := x.attach sync.uri m.state.synchronizers.length
    exact quiet_trans (h := added) hm.inv (.of_eq rfl rfl rfl rfl)
      (quiet_onSession (f := attach) (fun _ => rfl) fun _ => rfl)
  · exact .bind (orderly_inLine (orderly_sendOpen s _)) fun _ _ _ => orderly_pure _

theorem orderly_reopen (s : Nat) (settings : SyncSettings) (documents : List Synchronizer) :
    IsOrderly (Session.reopen s settings documents) m := by
  induction documents generalizing m with
  | nil => exact orderly_pure _
  | cons sync rest ih => exact .bind (orderly_openDocument s _) fun _ _ _ => ih

theorem orderly_commit (s : Nat) (uri : String) : IsOrderly (Session.commit s uri) m := by
  refine orderly_get ?_
  split
  · exact orderly_pure _
  rename_i k _
  refine orderly_withLock fun w => orderly_modifyGet (fun hm => continues_quiet hm ?_) ?_
  · exact .of_eq rfl rfl rfl rfl
  dsimp only
  split
  · exact orderly_pure _
  · exact orderly_get (.bind (orderly_tell s _) fun _ _ _ => orderly_pure _)

theorem orderly_save (s : Nat) (uri text : String) : IsOrderly (Session.save s uri text) m := by
  refine orderly_get ?_
  split
  · exact orderly_pure _
  refine orderly_withLock fun w => orderly_get ?_
  split
  · exact orderly_pure _
  · exact .bind (orderly_tell s _) fun _ _ _ => orderly_pure _

theorem orderly_disconnect (s : Nat) (uri : String) : IsOrderly (Session.disconnect s uri) m := by
  refine orderly_get ?_
  split
  · exact orderly_pure _
  refine orderly_modify (fun hm => continues_quiet hm ?_) fun _ => orderly_get ?_
  · exact quiet_onSession (f := fun session => (session.detach uri).touched) (fun _ => rfl)
      fun _ => rfl
  refine .bind (orderly_withLock fun w => orderly_get (.bind (orderly_tell s _) fun told _ _ => ?_))
    fun _ _ _ => ?_
  · cases told
    · exact orderly_pure _
    · exact orderly_emit _
  · split
    · exact orderly_get (orderly_start _ trivial)
    · exact orderly_pure _

theorem orderly_pushSettings (s : Nat) : IsOrderly (Session.pushSettings s) m := by
  refine orderly_get ?_
  split
  · exact orderly_pure _
  cases hclient : (m.state.session s).client? with
  | error e => exact orderly_pure _
  | ok c => exact orderly_holding_notify hclient (by decide)

end Manners

end LanguageHub
