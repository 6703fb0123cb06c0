import LanguageHub.Proofs.Manners.Running
import LanguageHub.Proofs.Settings.Pushing

/-!
# Starting sessions tells the settings

The session runs on a client for its definition, and in the turn in which it is started the settings
are read that the client's server is told.

Laws: a call through sessions has told all that it had to tell when it returns.
-/

namespace LanguageHub

/-- The session that a call may start. -/
def Call.starts? : Call → Option Nat
  | startSession s | restartSession s | connect s _ _ => some s
  | _ => none

/-- The session that a call may start is there. -/
def Hub.HasSessionFor (h : Hub) (c : Call) : Prop := ∀ s ∈ c.starts?, s < h.sessions.length

instance (h : Hub) (c : Call) : Decidable (h.HasSessionFor c) :=
  inferInstanceAs (Decidable (∀ s ∈ c.starts?, s < h.sessions.length))

namespace Briefing

open Routine Pact
open Manners (runOn speaker_runOn state_runOn speaker_enter state_enter)

variable {calls : Nat → Prop} {me c d s x : Nat} {w w' : World} {h : Hub}
  {m m' : Moment (pact calls me)} {capabilities : ServerCapabilities}

/-! ## Bringing a session to run -/

/-- All clients were told the settings but those on which the session was brought to run just
now. -/
def World.Owes (w : World) (me s : Nat) : Prop := ∀ s' c x, w.began s' c me x →
  w.Briefed c x ∨ s' = s ∧ x = w.date ∧ w.hub.Runs s' c

theorem World.Clean.owes (h : w.Clean me) (s : Nat) : w.Owes me s := fun s' c x hbegan =>
  .inl (h s' c x hbegan)

/-- A change by which at most this session is brought to run, and on this client. -/
structure Launches (s c : Nat) (h h' : Hub) : Prop extends Hub.Proceeds h h' where
  told : ∀ d, h'.told? d = h.told? d
  runs : ∀ s' d, h'.Runs s' d → h.Runs s' d ∨ s' = s ∧ d = c

theorem Launches.owes (hlaunches : Launches s c m.state h) (hm : m.Sound) (hme : calls me)
    (hfits : World.Fits m.now s c) (howes : World.Owes m.now me s)
    (hkeeps : World.Clean m.now me ∨ ∀ d, m.state.Runs s d → h.Runs s d) :
    (m.set h).Sound ∧ Later m.now (m.set h).now ∧ World.Owes (m.set h).now me s := by
  have hw : World.Records m.now := hm.inv
  have hlater : Later m.now (World.move me m.now h) :=
    later_move hw hlaunches.toProceeds fun d _ => .inl (hlaunches.told d)
  have hrecords : World.Records (World.move me m.now h) := by
    refine records_move hw hlaunches.toProceeds fun s' d hruns => ?_
    rcases hlaunches.runs s' d hruns with hbefore | ⟨rfl, rfl⟩
    · exact hw.fits s' d hbefore
    · exact hfits
  have hdate : World.date (World.move me m.now h) = World.date m.now :=
    congrArg (·.events.sent) hlaunches.registry
  refine ⟨⟨hrecords, hm.guarantee.trans ⟨hlater, fun s' d id y hbegan => ?_⟩, fun _ _ => trivial⟩,
    hlater, fun s' d y hbegan => ?_⟩
  · exact hbegan.imp_right fun hnew => ⟨hnew.2.2.1, hme⟩
  · rcases hbegan with hbefore | ⟨hruns, hnot, -, hy⟩
    · have hknown := hw.known s' d me y hbefore
      rcases hkeeps with hclean | hkeeps
      · exact .inl (hlater.briefed hknown (hclean s' d y hbefore))
      · refine (howes s' d y hbefore).imp (hlater.briefed hknown) fun ⟨hs', hy, hruns⟩ => ?_
        subst hs'
        exact ⟨rfl, hy.trans hdate.symm, hkeeps d hruns⟩
    · have hs' := ((hlaunches.runs s' d hruns).resolve_left hnot).1
      exact .inr ⟨hs', hy, hruns⟩

theorem launches_runOn (capabilities : ServerCapabilities) :
    Launches s c h (runOn s c capabilities h) where
  toProceeds := .onSession fun _ => rfl
  told _ := rfl
  runs s' d hruns := by
    obtain ⟨hstate, hspeaker⟩ := Hub.runs_iff.mp hruns
    rw [state_runOn] at hstate
    rw [speaker_runOn] at hspeaker
    split at hspeaker
    · rename_i hs
      exact .inr ⟨hs.1.symm, (Option.some.inj hspeaker).symm⟩
    · exact .inl (Hub.runs_iff.mpr ⟨hstate, hspeaker⟩)

theorem proceeds_enter (state : ServerState) : h.Proceeds (Session.enter s state h) := by
  unfold Session.enter
  dsimp only
  split
  · exact .refl h
  · have hentered : h.Proceeds (h.onSession s fun session => { session with state }) :=
      .onSession fun _ => rfl
    exact hentered.trans (.of_eq rfl rfl rfl (fun _ => rfl) rfl rfl rfl)

theorem launches_enter (hspeaker : h.speaker s = some c) :
    Launches s c h (Session.enter s .started h) where
  toProceeds := proceeds_enter _
  told d := by
    unfold Session.enter
    dsimp only
    split <;> rfl
  runs s' d hruns := by
    obtain ⟨hstate, hspeaks⟩ := Hub.runs_iff.mp hruns
    rw [speaker_enter] at hspeaks
    rw [state_enter] at hstate
    split at hstate
    · rename_i hs
      obtain rfl := hs.1
      exact .inr ⟨rfl, Option.some.inj (hspeaks.symm.trans hspeaker)⟩
    · exact .inl (Hub.runs_iff.mpr ⟨hstate, hspeaks⟩)

theorem runs_enter (hruns : h.Runs s d) : (Session.enter s .started h).Runs s d := by
  obtain ⟨hstate, hspeaks⟩ := Hub.runs_iff.mp hruns
  refine Hub.runs_iff.mpr ⟨?_, (speaker_enter ..).trans hspeaks⟩
  rw [state_enter]
  split
  · rfl
  · exact hstate

/-- Whoever brings a session to run pushes the settings before it does anything else. -/
theorem brings_push (s epoch : Nat) (howes : World.Owes m.now me s) (hm : m.Sound) :
    (Session.pushSettings s >>= fun _ => start (.watchConnection s c epoch)).Keeps
      (fun _ _ => True) m fun m' _ => m'.Sound ∧ World.Clean m'.now me := by
  have hpush : Goes (Session.pushSettings s) m fun _ w => w.Clean me := by
    refine goes_of_sound fun hm => (goes_pushSettings s).mono fun _ m' hpasses hbriefed => ?_
    intro s' d x hbegan
    have hbefore := hpasses.trust.began s' d x hbegan
    rcases howes s' d x hbefore with hbriefed' | ⟨rfl, rfl, hruns⟩
    · exact hpasses.later.briefed ((World.Records.known hm.inv) s' d me x hbefore) hbriefed'
    · exact hbriefed d hruns
  refine keeps_bind.mpr ((hpush hm).mono fun m' _ hend => ?_)
  exact brings_of_muting (muting_start _) hend.1.sound hend.2

theorem brings_run (s epoch : Nat) (hme : calls me) (hfits : World.Fits m.now s c) :
    Brings (Session.run s c epoch capabilities) m := by
  refine (goes_of_muting Client.muting_hold).then fun _ m₁ hpasses _ hm₁ hclean => ?_
  have hfits₁ := hpasses.later.fits hfits
  intro _
  obtain ⟨hm₂, hlater₂, howes₂⟩ := (launches_runOn capabilities).owes hm₁ hme hfits₁
    (World.Clean.owes hclean s) (.inl hclean)
  have hspeaker : (runOn s c capabilities m₁.state).speaker s = some c := by
    rw [speaker_runOn, if_pos ⟨rfl, hfits₁.session⟩]
  intro _
  obtain ⟨hm₃, -, howes₃⟩ := (launches_enter hspeaker).owes hm₂ hme (hlater₂.fits hfits₁) howes₂
    (.inr fun _ => runs_enter)
  exact brings_push s epoch howes₃ hm₃

/-! ## Starting -/

theorem brings_introduce (s epoch : Nat) (folders : List WorkspaceFolder) (hme : calls me)
    (hfits : World.Fits m.now s c) : Brings (Session.introduce s c epoch folders) m := by
  have hgivesUp : ∀ (e : HubError) (m' : Moment (pact calls me)),
      Brings (do Session.tearDown s; Session.failWith s e : Program (Except HubError Unit)) m' :=
    fun e _ => brings_of_muting
      (.bind Session.muting_tearDown fun _ => Session.muting_failWith e)
  refine (goes_of_muting (Session.muting_enter (by decide))).then fun _ m₁ hpasses₁ _ =>
    (goes_of_muting (Session.muting_shakeHands c folders)).then fun result m₂ hpasses₂ _ => ?_
  cases result with
  | error e => exact hgivesUp e m₂
  | ok capabilities =>
    refine (goes_of_muting (Client.muting_notify _ (by decide))).then fun told m₃ hpasses₃ _ => ?_
    have hlater := (hpasses₁.later.trans hpasses₂.later).trans hpasses₃.later
    cases told with
    | error e => exact hgivesUp e m₃
    | ok => exact (brings_run s epoch hme (hlater.fits hfits)).bind fun _ _ =>
        brings_of_muting (muting_pure _)

/-- The hub with a new client of the session over a link. -/
abbrev withClient (s link : Nat) (folders : List WorkspaceFolder) (h : Hub) : Hub :=
  { h with clients := h.clients ++ [.new (h.session s).serverId (h.session s).definition folders
      h.options.requestTimeout link] }

/-- A new client of a session is for the session's definition. -/
theorem goes_newClient (link : Nat) (folders : List WorkspaceFolder)
    (hs : s < (World.hub m.now).sessions.length) :
    Goes (Session.newClient s link folders) m fun c w => w.Fits s c := by
  have hmutes : m.state.Mutes (withClient s link folders m.state) := .addClient _
  have hfits : World.Fits (m.set (withClient s link folders m.state)).now s
      m.state.clients.length := by
    refine ⟨hs, ?_, ?_⟩
    · change _ < (m.state.clients ++ [_]).length
      rw [List.length_append]
      exact Nat.lt_succ_self _
    · change (((m.state.clients ++ [_])[m.state.clients.length]?).getD default).definition = _
      rw [List.getElem?_concat_length]
      rfl
  refine goes_modifyGet (fun hm => passes_mutes hm hmutes)
    ((goes_of_muting (muting_start _)).bind fun _ m₁ hpasses _ => ?_)
  exact goes_pure (hpasses.later.fits hfits)

theorem brings_startInTurn (hme : calls me) (hs : s < (World.hub m.now).sessions.length) :
    Brings (Session.startInTurn s) m := by
  refine (goes_of_muting ?_).then fun _ m₁ hpasses₁ _ => brings_get fun m₂ hpasses₂ _ => ?_
  · exact muting_modify fun h => .onSession_same (fun _ => rfl) (fun _ => rfl) fun _ => rfl
  refine (goes_of_muting (Session.muting_enter (by decide))).then fun _ m₃ hpasses₃ _ =>
    (goes_of_muting Session.muting_openConnection).then fun result m₄ hpasses₄ _ => ?_
  cases result with
  | error e => exact brings_of_muting (Session.muting_failWith e)
  | ok l =>
    refine (goes_of_muting ?_).then fun _ m₅ hpasses₅ _ =>
      (goes_of_muting ?_).then fun _ m₆ hpasses₆ _ => brings_get fun m₇ hpasses₇ _ => ?_
    · exact muting_modify fun h => .onSession_same (fun _ => rfl) (fun _ => rfl) fun _ => rfl
    · exact .withLock _ (Session.muting_onSession (fun _ => rfl) (fun _ => rfl) fun _ => rfl)
    have hlater := (((((hpasses₁.trans hpasses₂).trans hpasses₃).trans hpasses₄).trans
      hpasses₅).trans hpasses₆).trans hpasses₇ |>.later
    refine (goes_newClient l _ (Nat.lt_of_lt_of_le hs hlater.sessions)).then fun c m₈ _ hfits => ?_
    exact (brings_introduce s _ _ hme hfits).ensuring Client.mutes_release

theorem brings_start (hme : calls me) (hs : s < (World.hub m.now).sessions.length) :
    Brings (Session.start s) m := by
  refine brings_withLock fun m₁ hlater₁ => brings_get fun m₂ hpasses₂ _ => ?_
  dsimp only
  split
  · exact brings_of_muting (muting_pure _)
  · exact brings_of_muting (muting_pure _)
  · exact brings_startInTurn hme
      (Nat.lt_of_lt_of_le hs (hlater₁.trans hpasses₂.later).sessions)

theorem brings_restart (hme : calls me) (hs : s < (World.hub m.now).sessions.length) :
    Brings (Session.restart s) m := by
  refine brings_withLock fun m₁ hlater₁ => brings_get fun m₂ hpasses₂ _ => ?_
  dsimp only
  split
  · exact brings_of_muting (muting_pure _)
  refine (goes_of_muting Session.muting_stopInTurn).then fun _ m₃ hpasses₃ _ => ?_
  have hlater := (hlater₁.trans hpasses₂.later).trans hpasses₃.later
  refine (brings_startInTurn hme (Nat.lt_of_lt_of_le hs hlater.sessions)).bind fun result m₄ => ?_
  cases result with
  | error e => exact brings_of_muting (muting_pure _)
  | ok =>
    exact brings_of_muting (.bind muting_get fun _ =>
      .bind (Session.muting_reopen _ _) fun _ => muting_pure _)

theorem brings_connect (hme : calls me) (document : DocumentRef) (text : String)
    (hs : s < (World.hub m.now).sessions.length) :
    Brings (Session.connect s document text) m := by
  refine (brings_start hme hs).bind fun result m₁ => brings_of_muting ?_
  cases result with
  | error e => exact muting_pure _
  | ok =>
    refine .bind (Session.muting_onSession (fun _ => rfl) (fun _ => rfl) fun _ => rfl) fun _ =>
      .bind muting_get fun h => ?_
    dsimp only
    split
    · exact muting_pure _
    · exact muting_pure _
    · exact .bind (Session.muting_openDocument _) fun _ => muting_pure _

/-! ## Calls -/

theorem brings_call {call : Call} (hme : calls me) (hcall : call.IsThroughSessions)
    (hthere : (World.hub m.now).HasSessionFor call) : Brings call.program m := by
  have hmuting : ∀ {α : Type} {p : Program α} (f : α → Outcome), Muting p →
      Brings (p >>= fun a => pure (f a)) m := fun f hp =>
    brings_of_muting (.bind hp fun _ => muting_pure _)
  cases call with
  | startSession s =>
    exact (brings_start hme (hthere s rfl)).bind fun _ _ => brings_of_muting (muting_pure _)
  | restartSession s =>
    exact (brings_restart hme (hthere s rfl)).bind fun _ _ => brings_of_muting (muting_pure _)
  | connect s document text =>
    exact (brings_connect hme document text (hthere s rfl)).bind fun _ _ =>
      brings_of_muting (muting_pure _)
  | pushSettings s =>
    exact (goes_pushSettings s).then fun _ _ _ _ => brings_of_muting (muting_pure _)
  | stopSession s => exact hmuting _ Session.muting_stop
  | disconnect s uri => exact hmuting _ (Session.muting_disconnect uri)
  | commit s uri => exact hmuting _ (Session.muting_commit uri)
  | save s uri text => exact hmuting _ (Session.muting_save uri text)
  | ask r => exact hmuting _ r.muting_run
  | cancelAfter cancellation delay =>
    refine brings_of_muting (.bind (muting_sleep delay) fun _ => .bind (muting_modify fun _ => ?_)
      fun _ => muting_pure _)
    exact .of_eq rfl rfl rfl rfl rfl rfl
  | _ => exact hcall.elim

/-- The jobs that sessions start have nothing to do with settings. -/
theorem muting_job {job : Job} (hjob : job.IsOwn) : Muting job.program := by
  cases job with
  | read c => exact .bind Client.muting_listen fun goesOn => muting_pure _
  | watchConnection s c epoch =>
    exact .bind (Session.muting_watchConnection c epoch) fun _ => muting_pure _
  | stopWhenIdle s attachments =>
    exact .bind (Session.muting_stopWhenIdle attachments) fun _ => muting_pure _
  | watchRegistry cursor => exact hjob.elim
  | call slot c => exact hjob.elim

end Briefing

end LanguageHub
