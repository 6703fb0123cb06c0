import LanguageHub.Proofs.Manners.Orderly
import LanguageHub.Session.Documents

/-!
# Saying goodbye

Whoever stops a session says goodbye once the session has left the started state, so that nothing
is asked and no place is taken in the queue any more that would count as early. When the goodbye
has its turn all that came before has been told.
-/

namespace LanguageHub.Manners

open Routine Pact Client

variable {me c s : Nat} {w w' : World} {m : Moment (pact me)} {r : Request}
  {queuing opening ran : Nat → Prop} {mine : Nat → Nat → Prop} {h : Hub} {state : ServerState}

/-! ## The goodbye -/

/-- Whoever came for the queue after the session stopped has all that is early behind it once it
holds the queue. -/
theorem parted_of_held {t : Nat} (hw : w.Inv) (hw' : w'.Inv) (hbinds : Binds queuing opening w w')
    (hleft : w.Left c) (hid : ∃ n : Nat, r.id = .number n ∧ ¬ w.asked c n)
    (hnext : (w.hub.queue c).next ≤ t) (hheld : (w'.hub.queue c).holder = some t) :
    w'.Parted c r := by
  obtain ⟨hleft', hearly, hasked⟩ := hbinds.left c hleft
  obtain ⟨n, hn, hnot⟩ := hid
  refine ⟨hleft', ⟨n, hn, fun hnew => hnot (hasked n hnew)⟩, fun t' ht' hnew => ?_⟩
  have hbefore := (hw.early c).below t' (hearly t' hnew)
  have hafter := (hw'.ordered c).le_of_holder hheld ht'
  omega

theorem abides_farewell (hleft : w.Left c) (hmethod : r.method = "shutdown")
    (hid : ∃ n : Nat, r.id = .number n ∧ ¬ w.asked c n) :
    (write c (.request r)).Abides (custom me) w := by
  refine abides_withLock fun w₀ w₁ hw₀ hears₀ hw₁ hears₁ hheld =>
    abides_transfer _ _ _ fun w₂ _ hears₂ _ _ => ?_
  have hbegun : Hears me w₀ w₁ :=
    ((custom me).hears_of_does hw₀ (Quiet.may (.enterLock hw₀.ordered) hw₀)).trans hears₁
  obtain ⟨hleft₀, -, hasked₀⟩ := hears₀.left c hleft
  -- The place in the queue is taken now, when no place is early any more.
  have hid₀ : ∃ n : Nat, r.id = .number n ∧ ¬ w₀.asked c n :=
    hid.imp fun n hn => ⟨hn.1, fun hasked => hn.2 (hasked₀ n hasked)⟩
  have hparted : w₂.Parted c r :=
    (parted_of_held hw₀ hw₁ hbegun hleft₀ hid₀ (Nat.le_refl _) hheld).later hw₁ hears₂
  exact ⟨hparted.left.1, .farewell r hmethod hparted⟩

theorem obeys_shutDown (hw : w.Inv) (hleft : w.Left c) (timeout : Duration) :
    (shutDown c timeout).Obeys (custom me) w := by
  have hnumbered : Hears me w (numbered me w c) :=
    ((quiet_takeId (c := c)).may hw).1.hears hw
  obtain ⟨hleft', -, hasked⟩ := hnumbered.left c hleft
  have hnew : ¬ (numbered me w c).asked c (w.hub.client c).nextId := fun h =>
    Nat.lt_irrefl _ ((hw.asked c).below _ (hasked _ h))
  refine Obeys.bind (obeys_request timeout hw hleft.1 (.inl rfl)
    (abides_farewell hleft' rfl ⟨_, rfl, hnew⟩)) hw fun answer => ?_
  exact .bind (abides_notify hleft.1 (by decide) .exit) fun _ => abides_pure _

/-- A session that has left the started state says goodbye. -/
theorem orderly_sayGoodbye (hstate : (m.state.session s).state ≠ .started) :
    IsOrderly (Session.sayGoodbye s) m := by
  intro hm
  refine orderly_get ?_ hm
  cases hrunning : (m.state.session s).running with
  | none => exact orderly_pure _
  | some running =>
    dsimp only
    split
    · refine .bind (orderly_holding ?_) fun _ _ _ => orderly_pure _
      have hw : World.Inv m.now := hm.inv
      have hspeaker : (World.hub m.now).speaker s = some running.client :=
        congrArg (Option.map Running.client) hrunning
      have hleft : World.Left m.now running.client := by
        refine ⟨hw.spoke _ ⟨s, hspeaker⟩, fun hlive => ?_⟩
        -- Only one session runs on a client, and this one is not started.
        obtain ⟨s', hstarted, hspeaker'⟩ := Hub.live_iff.mp hlive
        rw [hw.single s' s _ hspeaker' hspeaker] at hstarted
        exact hstate hstarted
      have hheld := continues_quiet hm (quiet_hold (c := running.client))
      exact orderly_of_obeys (obeys_shutDown hheld.sound.inv
        (hheld.hears.left _ hleft).1 _)
    · exact orderly_pure _

/-! ## Taking down -/

theorem minds_drop (hw : w.Inv) (s : Nat) :
    Minds me w (w.hub.onSession s fun session => { session with running := none }) := by
  let dropped := w.hub.onSession s fun session => { session with running := none }
  have hspeaker : ∀ s', dropped.speaker s' = w.hub.speaker s' ∨ dropped.speaker s' = none :=
    fun s' => by
      rw [Hub.speaker, Hub.session_of_onSession]
      split
      · exact .inr rfl
      · exact .inl rfl
  have hsame : ∀ s' c, dropped.speaker s' = some c → w.hub.speaker s' = some c :=
    fun s' c hs => (hspeaker s').elim (fun heq => heq.symm.trans hs) fun hnone => by
      cases hnone.symm.trans hs
  have hlive : ∀ c, dropped.Live c → w.hub.Live c := by
    intro c hlive
    obtain ⟨s', hstate, hs'⟩ := Hub.live_iff.mp hlive
    refine Hub.live_iff.mpr ⟨s', ?_, hsame s' c hs'⟩
    rw [Hub.session_of_onSession] at hstate
    split at hstate <;> exact hstate
  exact ⟨acts_resembling ⟨rfl, rfl, rfl⟩ (fun s' c hs => .inl (hsame s' c hs))
    (fun s₁ s₂ c h₁ h₂ => hw.single s₁ s₂ c (hsame s₁ c h₁) (hsame s₂ c h₂))
    fun c h => .inl (hlive c h), rfl, fun _ _ => rfl, fun _ _ => .inl, hspeaker⟩

theorem minds_dropClient (hw : w.Inv) (s : Nat) : Minds me w (Session.dropClient s w.hub) := by
  unfold Session.dropClient
  split
  · exact Quiet.minds (.same _) hw
  · exact (minds_drop hw s).quiet hw quiet_release

theorem abides_endServer (l : Nat) : (Session.endServer l).Abides (custom me) w := by
  refine abides_get fun w₁ _ _ => abides_get fun w₂ _ _ => ?_
  split
  · refine abides_quietGet (fun _ _ _ => .of_eq rfl rfl rfl rfl) fun deadline =>
      abides_waitUntil fun _ _ _ _ => abides_quiet fun _ _ _ => ?_
    exact .onLink (f := fun l => { l with isLingering := false }) rfl
  · exact abides_pure _

theorem orderly_tearDown (s : Nat) (hcalm : Calm m) : IsOrderly (Session.tearDown s) m := by
  refine orderly_modify (fun hm => continues_set hm (minds_dropClient hm.inv s) (.inl hcalm))
    fun _ => .bind (orderly_withLock fun w =>
      orderly_modifyGet (fun hm => continues_quiet hm ?_) ?_) fun _ _ _ =>
        orderly_quiet fun _ _ => ?_
  · exact quiet_onSession (f := fun session => { session with link := none }) (fun _ => rfl)
      fun _ => rfl
  · split
    · exact orderly_of_abides (abides_endServer _)
    · exact orderly_pure _
  · exact quiet_onSession (f := fun session => { session with processId := none })
      (fun _ => rfl) fun _ => rfl

/-! ## States -/

theorem quiet_enter (hstate : state ≠ .started) : Quiet mine ran h (Session.enter s state h) := by
  unfold Session.enter
  dsimp only
  split
  · exact .same _
  · have hsession : Quiet mine ran h (h.onSession s fun session => { session with state }) :=
      .onSession rfl fun heq => absurd heq hstate
    exact hsession.trans (.of_eq rfl rfl rfl rfl)

theorem state_enter (s s' : Nat) (state : ServerState) (h : Hub) :
    ((Session.enter s state h).session s').state =
      if s = s' ∧ s' < h.sessions.length then state else (h.session s').state := by
  unfold Session.enter
  dsimp only
  split
  · rename_i hsame
    split
    · rename_i hs
      rw [← hs.1, hsame]
    · rfl
  · refine (congrArg Session.state (Hub.session_of_onSession ..)).trans ?_
    split <;> rfl

theorem quiet_fail (e : HubError) : Quiet mine ran h (Session.fail s e h) := by
  have hfailed : Quiet mine ran h (Session.enter s .failed
      (h.onSession s fun session => { session with lastError := some e.message })) :=
    Quiet.trans (.onSession rfl id) (quiet_enter (by decide))
  unfold Session.fail
  dsimp only
  split
  · exact hfailed.trans (.of_eq rfl rfl rfl rfl)
  · exact hfailed

/-! ## Stopping -/

theorem orderly_stopInTurn (s : Nat) (hcalm : Calm m) : IsOrderly (Session.stopInTurn s) m := by
  refine orderly_get ?_
  dsimp only
  split
  · exact orderly_pure _
  rename_i hstate
  have hknown : s < m.state.sessions.length := by
    by_contra hunknown
    rw [Hub.session, List.getElem?_eq_none (Nat.le_of_not_lt hunknown)] at hstate
    exact hstate (.inl rfl)
  refine orderly_modify (fun hm => continues_quiet hm ?_) fun h₁ =>
    orderly_modify (fun hm => continues_quiet hm (quiet_enter (by decide))) fun h₂ => ?_
  · exact quiet_onSession (f := fun session => { session with epoch := session.epoch + 1 })
      (fun _ => rfl) fun _ => rfl
  have hleft : ((Session.enter s .stopping (m.state.onSession s fun session =>
      { session with epoch := session.epoch + 1 })).session s).state ≠ .started := by
    rw [state_enter, if_pos ⟨rfl, by rwa [Hub.onSession, List.length_modify]⟩]
    decide
  refine .bind (orderly_sayGoodbye hleft) fun _ m₃ h₃ =>
    .bind (orderly_tearDown s ((h₁.trans (h₂.trans h₃)).calm hcalm)) fun _ _ _ =>
      .bind (orderly_quiet fun _ _ => ?_) fun _ _ _ =>
        orderly_quiet fun _ _ => quiet_enter (by decide)
  exact quiet_onSession (f := fun session => { session with documents := [], startedAt := none })
    (fun _ => rfl) fun _ => rfl

theorem orderly_stop (s : Nat) : IsOrderly (Session.stop s) m :=
  orderly_withLock fun w => orderly_stopInTurn s (calm_resume w)

theorem orderly_watchConnection (s c epoch : Nat) :
    IsOrderly (Session.watchConnection s c epoch) m := by
  refine orderly_waitUntil fun w _ _ => orderly_get ?_
  dsimp only
  split
  · exact orderly_modify (fun hm => continues_quiet hm (quiet_fail _)) fun h =>
      orderly_tearDown s (h.calm (calm_resume w))
  · exact orderly_pure _

theorem orderly_stopWhenIdle (s attachments : Nat) :
    IsOrderly (Session.stopWhenIdle s attachments) m := by
  refine orderly_get (.bind (orderly_of_abides (abides_sleep _)) fun _ _ _ => orderly_get ?_)
  dsimp only
  split
  · exact orderly_stop s
  · exact orderly_pure _

end LanguageHub.Manners
