import LanguageHub.Proofs.Hub.Fading

/-!
# Programs that reach something

What a program reaches is said by what holds before and after it; in between it keeps the
pact. A call knows about itself which tickets for send locks it has, and that nobody edits
the document while it runs, if calls take turns. Whoever has a session's turn has it through
all waits.
-/

namespace LanguageHub

open Routine Pact HubMoment

variable {s : Nat} {u : String} {a : Actor} {α β : Type}

/-! ## Reaching -/

/-- From `P` on the program comes to `Q` and keeps the pact on the way. -/
def Reaches (P : HubMoment s u a → Prop) (p : Program α) (Q : α → HubMoment s u a → Prop) :
    Prop :=
  ∀ m, m.Sound → P m → p.Keeps (fun _ _ => True) m fun m' b => m'.Sound ∧ Q b m'

/-- What holds at a moment holds as long as only others go on. -/
def Lasting (P : HubMoment s u a → Prop) : Prop := ∀ m m', m'.Sound → Later m m' → P m → P m'

/-- What is said of the scene as it is and as it was when the task went on. -/
def Plain (P : HubMoment s u a → Prop) : Prop :=
  ∀ m m', m'.start = m.start → m'.scene = m.scene → P m → P m'

section Rules

variable {P P' : HubMoment s u a → Prop} {Q Q' : α → HubMoment s u a → Prop} {p : Program α}

theorem Reaches.weaken (h : Reaches P p Q) (hP : ∀ m, m.Sound → P' m → P m)
    (hQ : ∀ b m, Q b m → Q' b m) : Reaches P' p Q' := fun m hm hPm =>
  (h m hm (hP m hm hPm)).mono fun _ b hgoal => ⟨hgoal.1, hQ b _ hgoal.2⟩

theorem reaches_pure (b : α) (h : ∀ m, P m → Q b m) : Reaches P (pure b : Program α) Q :=
  fun m hm hPm => ⟨hm, h m hPm⟩

theorem Reaches.bind {f : α → Program β} {R : β → HubMoment s u a → Prop} (hp : Reaches P p Q)
    (hf : ∀ b, Reaches (Q b) (f b) R) : Reaches P (p >>= f) R := fun m hm hPm =>
  keeps_bind.mpr ((hp m hm hPm).mono fun m' b hgoal => hf b m' hgoal.1 hgoal.2)

/-- What lasts is not lost by what does nothing. -/
theorem reaches_of_neutral (hP : Lasting P) (hp : ∀ m, m.Sound → P m → NeutralAt m p) :
    Reaches P p fun _ => P := fun m hm hPm =>
  hp m hm hPm _ _ (fun _ _ _ _ => trivial) fun m' _ hm' hlater => ⟨hm', hP m m' hm' hlater hPm⟩

theorem reaches_modify {f : Hub → Hub} {Q : HubMoment s u a → Prop}
    (h : ∀ m, m.Sound → P m → (pact s u a).allows m.start m.state (f m.state) →
      (m.set (f m.state)).Sound ∧ Q (m.set (f m.state))) :
    Reaches P (modify f : Program Unit) fun _ => Q := fun m hm hPm hallows =>
  h m hm hPm hallows

/-- What follows the state may depend on how it is at the moment. -/
theorem reaches_get {next : Hub → Program α} (hP : Lasting P)
    (hnext : ∀ h, Reaches (fun m => P m ∧ m.state = h) (next h) Q) :
    Reaches P (get >>= next) Q := by
  intro m hm hPm _
  obtain ⟨hm', hlater⟩ := sound_silent (h := m.state) hm rfl
  exact hnext m.state _ hm' ⟨hP m _ hm' hlater hPm, Moment.state_set _ _⟩

/-- What is known of the scene and of the turn is still known once the state was read. -/
theorem reaches_look {next : Hub → Program α} (hP : Plain P)
    (hnext : ∀ h, Reaches (fun m => P m ∧ m.state = h) (next h) Q) :
    Reaches P (get >>= next) Q := by
  intro m hm hPm _
  have hscene : scene (m.set m.state) = m.scene := scene_set_of_outline rfl (voiced_of_sound hm)
  exact hnext m.state _ (sound_of_scene (m := m) rfl rfl hscene hm)
    ⟨hP m _ rfl hscene hPm, Moment.state_set _ _⟩

/-- It is still known after a change that the outline does not show. -/
theorem reaches_silent {f : Hub → Hub} (hP : Plain P) (hf : ∀ h, (f h).outline s = h.outline s) :
    Reaches P (modify f : Program Unit) fun _ => P := by
  intro m hm hPm _
  have hscene := scene_set_of_outline (hf m.state) (voiced_of_sound hm)
  exact ⟨sound_of_scene (m := m) rfl rfl hscene hm, hP m _ rfl hscene hPm⟩

theorem reaches_spawn {job : Job} (hP : Plain P) (hjob : ∀ m, P m → m.scene.Starts job) :
    Reaches P (Routine.start job : Program Unit) fun _ => P := fun m hm hPm =>
  ⟨sound_spawned hm (hjob m hPm), hP m _ rfl rfl hPm⟩

/-- A case that is ruled out. -/
theorem reaches_of_false (h : ∀ m, m.Sound → ¬ P m) : Reaches P p Q := fun m hm hPm =>
  absurd hPm (h m hm)

end Rules

/-! ## What a call knows -/

/-- What a call knows all the time: these of its tickets for send locks it has not given
back, and when calls take turns the document stays as it was. -/
structure Scene.Basis (a : Actor) (turns : Bool) (content : Buffer) (own : List (Nat × Nat))
    (x : Scene) : Prop where
  alone : x.alone = turns
  own : ∀ k t, t ∈ (x.lock (.send k)).tickets → x.owner (.send k) t = a.id → (k, t) ∈ own
  text : turns = true → x.text = content
  phase : turns = true → x.phase = .idle

/-- What a call knows before it comes to speak of documents. -/
structure Scene.Ground (u : String) (a : Actor) (turns : Bool) (content : Buffer) (x : Scene) :
    Prop extends x.Basis a turns content [] where
  quiet : turns = true → x.Quiet u

namespace Scene

variable {x y : Scene} {turns : Bool} {content : Buffer} {own : List (Nat × Nat)}

theorem Basis.rely (h : x.Basis a turns content own) (ha : a.isCall = true)
    (hxy : x.Rely u a y) (hy : y.Inv u) : y.Basis a turns content own where
  alone := (hxy.alone ha).trans h.alone
  own k t ht hown := by
    by_cases hold : t < (x.lock (.send k)).next
    · refine h.own k t (hxy.always.gone _ t hold ht) ?_
      rwa [← hxy.always.owner _ t hold]
    · have hissued := (hy.locked.valid (.send k)).issued t ht
      exact absurd hown (hxy.given k t (Nat.le_of_not_lt hold) hissued)
  text hturns := (hxy.still ha (h.alone.trans hturns)).text.trans (h.text hturns)
  phase hturns := (hxy.still ha (h.alone.trans hturns)).phase.trans (h.phase hturns)

theorem Still.quiet (h : Still u x y) (hx : x.Quiet u) : y.Quiet u := by
  intro k hk
  rw [h.lock]
  refine hx k ?_
  simpa only [Concerns, synchronizer, h.synchronizers] using hk

theorem Ground.rely (h : x.Ground u a turns content) (ha : a.isCall = true)
    (hxy : x.Rely u a y) (hy : y.Inv u) : y.Ground u a turns content :=
  { h.toBasis.rely ha hxy hy with
    quiet := fun hturns => (hxy.still ha (h.alone.trans hturns)).quiet (h.quiet hturns) }

end Scene

/-! ## Turns -/

namespace HubMoment

/-- The task has the session's turn with this ticket, and had it when it went on. -/
structure InTurn (t : Nat) (m : HubMoment s u a) : Prop where
  now : m.scene.Holds a (.lifecycle s) t
  origin : m.origin.Holds a (.lifecycle s) t

theorem lasting_inTurn (t : Nat) : Lasting (InTurn (s := s) (u := u) (a := a) t) :=
  fun m m' _ hlater h => by
    refine ⟨hlater.rely.holds h.now, ?_⟩
    rcases hlater.origin with heq | hrely
    · have horigin : m'.origin = m.origin := congrArg (World.scene s) heq
      rw [horigin]
      exact h.origin
    · exact hrely.holds h.now

variable {m m' : HubMoment s u a} {t : Nat}

theorem InTurn.kept (h : m.InTurn t) (hlater : Later m m') : Scene.TurnKept u m.scene m'.scene :=
  hlater.rely.protected h.now rfl

end HubMoment

end LanguageHub
