import LanguageHub.Proofs.Manners.Farewell
import LanguageHub.Proofs.Manners.Greeting

/-!
# Starting sessions

Once a client is introduced its session runs on it, and from then on others speak there too. A
start that fails takes the client down without another word.
-/

namespace LanguageHub.Manners

open Routine Pact Client

variable {me c l s : Nat} {w : World} {h : Hub} {m : Moment (pact me)}

/-! ## Running -/

theorem move_resembling (hsame : w.hub.Resembles h) : w.move me h =
    { w with
      hub := h
      ran := fun c => w.ran c ∨ h.Speaks c
      early := fun c t => w.early c t ∨ h.Live c ∧ t < (w.hub.queue c).next
      asked := fun c n => w.asked c n ∨ h.Live c ∧ n < (w.hub.client c).nextId } := by
  simp only [World.move, World.mk.injEq, true_and, hsame.queue, hsame.client, hsame.links,
    hsame.answers]
  refine ⟨?_, ?_, ?_, trivial⟩
  · funext c t
    exact if_neg fun hnew => absurd hnew.2 (Nat.not_lt_of_le hnew.1)
  · funext l
    exact if_neg fun hnew => absurd hnew.2 (Nat.not_lt_of_le hnew.1)
  · funext c r
    exact propext (or_iff_left fun hgone => hgone.2 hgone.1)

/-- Two changes of sessions are one as far as the world goes, if the first one only goes part of
the way. -/
theorem move_move {h₁ h₂ : Hub} (hsame : w.hub.Resembles h₁) (hsame' : h₁.Resembles h₂)
    (hspeaks : ∀ c, h₁.Speaks c → h₂.Speaks c) (hlive : ∀ c, h₁.Live c → h₂.Live c) :
    (w.move me h₁).move me h₂ = w.move me h₂ := by
  have hlater : (w.move me h₁).hub.Resembles h₂ := hsame'
  rw [move_resembling hlater, move_resembling (hsame.trans hsame'), move_resembling hsame]
  simp only [World.mk.injEq, true_and, hsame.queue, hsame.client, or_assoc]
  refine ⟨?_, ?_, ?_⟩
  · funext c
    exact propext (or_congr_right (or_iff_right_of_imp (hspeaks c)))
  · funext c t
    exact propext (or_congr_right (or_iff_right_of_imp (And.imp_left (hlive c))))
  · funext c n
    exact propext (or_congr_right (or_iff_right_of_imp (And.imp_left (hlive c))))

theorem resembles_enter (s : Nat) (state : ServerState) (h : Hub) :
    h.Resembles (Session.enter s state h) := by
  unfold Session.enter
  dsimp only
  split <;> exact ⟨rfl, rfl, rfl⟩

theorem speaker_enter (s : Nat) (state : ServerState) (h : Hub) (s' : Nat) :
    (Session.enter s state h).speaker s' = h.speaker s' := by
  unfold Session.enter
  dsimp only
  split
  · rfl
  · change ((h.onSession s _).session s').running.map _ = _
    rw [Hub.session_of_onSession]
    split <;> rfl

section Run

variable (s c : Nat) (capabilities : ServerCapabilities) (h : Hub)

/-- The session runs on the client and may not be started yet. -/
abbrev runOn : Hub :=
  h.onSession s fun session => { session with running := some ⟨c, capabilities⟩ }

theorem speaker_runOn (s' : Nat) : (runOn s c capabilities h).speaker s' =
    if s = s' ∧ s' < h.sessions.length then some c else h.speaker s' := by
  rw [Hub.speaker, Hub.session_of_onSession]
  split <;> rfl

theorem state_runOn (s' : Nat) :
    ((runOn s c capabilities h).session s').state = (h.session s').state := by
  rw [Hub.session_of_onSession]
  split <;> rfl

theorem speaker_started (s' : Nat) :
    (Session.enter s .started (runOn s c capabilities h)).speaker s' =
      if s = s' ∧ s' < h.sessions.length then some c else h.speaker s' :=
  (speaker_enter ..).trans (speaker_runOn ..)

theorem state_started (s' : Nat) :
    ((Session.enter s .started (runOn s c capabilities h)).session s').state =
      if s = s' ∧ s' < h.sessions.length then .started else (h.session s').state := by
  have hlength : (runOn s c capabilities h).sessions.length = h.sessions.length :=
    List.length_modify ..
  rw [state_enter, state_runOn, hlength]

theorem resembles_started :
    h.Resembles (Session.enter s .started (runOn s c capabilities h)) :=
  have hrun : h.Resembles (runOn s c capabilities h) := ⟨rfl, rfl, rfl⟩
  hrun.trans (resembles_enter ..)

end Run

variable {capabilities : ServerCapabilities}

theorem acts_started (hw : w.Inv) (hready : w.Ready me c) :
    Acts me w (Session.enter s .started (runOn s c capabilities w.hub)) := by
  have hspeaker : ∀ s' d,
      (Session.enter s .started (runOn s c capabilities w.hub)).speaker s' = some d →
        w.hub.speaker s' = some d ∨ s = s' ∧ c = d := by
    intro s' d hs'
    rw [speaker_started] at hs'
    split at hs'
    · rename_i hs
      exact .inr ⟨hs.1, Option.some.inj hs'⟩
    · exact .inl hs'
  have hnobody : ∀ s', w.hub.speaker s' ≠ some c := fun s' hs' =>
    hready.1.ran (hw.spoke c ⟨s', hs'⟩)
  refine acts_resembling (resembles_started ..) (fun s' d hs' => ?_)
    (fun s₁ s₂ d h₁ h₂ => ?_) fun d hlive => ?_
  · exact (hspeaker s' d hs').imp_right fun ⟨_, hd⟩ => hd ▸ hready
  · rcases hspeaker s₁ d h₁ with hold₁ | ⟨hs₁, rfl⟩
    · rcases hspeaker s₂ d h₂ with hold₂ | ⟨-, rfl⟩
      · exact hw.single s₁ s₂ d hold₁ hold₂
      · exact absurd hold₁ (hnobody s₁)
    · rcases hspeaker s₂ c h₂ with hold₂ | ⟨hs₂, -⟩
      · exact absurd hold₂ (hnobody s₂)
      · exact hs₁.symm.trans hs₂
  · obtain ⟨s', hstate, hs'⟩ := Hub.live_iff.mp hlive
    rw [state_started] at hstate
    rw [speaker_started] at hs'
    split at hs'
    · exact .inr (Option.some.inj hs' ▸ hready)
    · rename_i hother
      rw [if_neg hother] at hstate
      exact .inl (Hub.live_iff.mpr ⟨s', hstate, hs'⟩)

/-- The session runs on the client and is started in one turn. -/
theorem set_started (m : Moment (pact me)) (s c : Nat) (capabilities : ServerCapabilities) :
    (m.set (runOn s c capabilities m.state)).set
        (Session.enter s .started (runOn s c capabilities m.state)) =
      m.set (Session.enter s .started (runOn s c capabilities m.state)) := by
  have hspeaker := speaker_enter s .started (runOn s c capabilities m.state)
  refine congrArg (fun now => (⟨m.start, now, m.jobs⟩ : Moment (pact me)))
    (move_move ⟨rfl, rfl, rfl⟩ (resembles_enter ..) (fun d hspeaks => ?_) fun d hlive => ?_)
  · obtain ⟨s', hs'⟩ := hspeaks
    exact ⟨s', (hspeaker s').trans hs'⟩
  · obtain ⟨s', hstate, hs'⟩ := Hub.live_iff.mp hlive
    refine Hub.live_iff.mpr ⟨s', ?_, (hspeaker s').trans hs'⟩
    rw [state_enter]
    split
    · rfl
    · exact hstate

theorem behaves_run (s epoch : Nat) (hready : World.Ready m.now me c) :
    Behaves (Session.run s c epoch capabilities) m := by
  refine (orderly_quiet fun _ _ => quiet_hold).leads.behaves fun _ m₁ hears => ?_
  have hready₁ := hready.later hears
  clear hready hears
  intro hm hcalm _ _
  have hw : World.Inv m₁.now := hm.inv
  have hsame := resembles_started s c capabilities m₁.state
  have hsound : (m₁.set (Session.enter s .started (runOn s c capabilities m₁.state))).Sound :=
    sound_set hm (acts_started hw hready₁) (fun d r hr => .inl ((hsame.answers d r).mpr hr))
      fun d hstart hspeaks => absurd (hcalm d (hw.spoke d hspeaks)) hstart
  have hrest : IsOrderly (Session.pushSettings s >>= fun _ => start (.watchConnection s c epoch))
      (m₁.set (Session.enter s .started (runOn s c capabilities m₁.state))) :=
    .bind (orderly_pushSettings s) fun _ _ _ => orderly_start _ trivial
  -- A session that runs and is not started yet is seen by nobody: the turn goes on.
  rw [← set_started m₁ s c capabilities] at hsound hrest
  exact (hrest hsound).mono fun _ _ hend => hend.sound

/-! ## Starting -/

theorem orderly_failWith {α : Type} (s : Nat) (e : HubError) :
    IsOrderly (Session.failWith s e : Program (Except HubError α)) m :=
  .bind (orderly_quiet fun _ _ => quiet_fail e) fun _ _ _ => orderly_pure _

/-- A start that fails takes the client down. -/
theorem behaves_giveUp (s : Nat) (e : HubError) :
    Behaves (do Session.tearDown s; Session.failWith s e : Program (Except HubError Unit)) m :=
  fun hm hcalm => ((orderly_tearDown s hcalm).bind fun _ _ _ => orderly_failWith s e).behaves hm
    hcalm

theorem behaves_introduce (s epoch : Nat) (folders : List WorkspaceFolder)
    (hblank : World.Blank m.now me c) : Behaves (Session.introduce s c epoch folders) m := by
  refine (orderly_quiet fun _ _ => quiet_enter (by decide)).leads.behaves fun _ m₁ hears => ?_
  refine (leads_shakeHands s folders (hblank.later hears)).behaves fun result m₂ hanswered => ?_
  cases result with
  | error e => exact behaves_giveUp s e
  | ok capabilities =>
    obtain ⟨r, hsaid, hanswered⟩ := hanswered capabilities rfl
    refine (leads_initialized hsaid hanswered).behaves fun told m₃ hready => ?_
    cases told with
    | error e => exact behaves_giveUp s e
    | ok => exact (behaves_run s epoch (hready rfl)).orderly fun _ _ => orderly_pure _

theorem behaves_startInTurn (s : Nat) : Behaves (Session.startInTurn s) m := by
  refine (orderly_quiet fun w _ => ?_).leads.behaves fun _ m₁ _ => behaves_get ?_
  · exact quiet_onSession (f := fun session => session.begin w.hub.clock) (fun _ => rfl)
      fun _ => rfl
  refine (orderly_quiet fun _ _ => quiet_enter (by decide)).leads.behaves fun _ m₂ _ =>
    (leads_openConnection s).behaves fun result m₃ hopened => ?_
  cases result with
  | error e => exact (orderly_failWith s e).behaves
  | ok l =>
    refine (orderly_quiet fun w _ => ?_).leads.behaves fun _ m₄ hears₄ =>
      (orderly_withLock fun _ => orderly_quiet fun _ _ => ?_).leads.behaves fun _ m₅ hears₅ =>
        behaves_get ((leads_newClient s _ ?_).behaves fun c m₆ hblank => ?_)
    · exact quiet_onSession
        (f := fun session => { session with processId := (w.hub.link l).processId })
        (fun _ => rfl) fun _ => rfl
    · exact quiet_onSession (f := fun session => { session with link := some l }) (fun _ => rfl)
        fun _ => rfl
    · exact (hopened l rfl).later (hears₄.trans hears₅)
    · exact (behaves_introduce s _ _ hblank).ensuring fun _ _ => quiet_release

theorem behaves_start (s : Nat) : Behaves (Session.start s) m := by
  refine behaves_withLock nofun fun w => behaves_get ?_
  dsimp only
  split
  · exact (orderly_pure _).behaves
  · exact (orderly_pure _).behaves
  · exact behaves_startInTurn s

theorem behaves_restart (s : Nat) : Behaves (Session.restart s) m := by
  refine behaves_withLock nofun fun w => behaves_get ?_
  dsimp only
  split
  · exact (orderly_pure _).behaves
  refine (orderly_stopInTurn s (calm_resume w)).leads.behaves fun _ m₁ _ =>
    (behaves_startInTurn s).orderly fun result m₂ => ?_
  cases result with
  | error e => exact orderly_pure _
  | ok => exact orderly_get (.bind (orderly_reopen s _ _) fun _ _ _ => orderly_pure _)

theorem behaves_connect (s : Nat) (document : DocumentRef) (text : String) :
    Behaves (Session.connect s document text) m := by
  refine (behaves_start s).orderly fun result m' => ?_
  cases result with
  | error e => exact orderly_pure _
  | ok =>
    refine .bind (orderly_quiet fun _ _ => ?_) fun _ m₁ _ => orderly_get ?_
    · exact quiet_onSession (f := Session.touched) (fun _ => rfl) fun _ => rfl
    dsimp only
    split
    · exact orderly_pure _
    · exact orderly_pure _
    · exact .bind (orderly_openDocument s _) fun _ _ _ => orderly_pure _

end LanguageHub.Manners
