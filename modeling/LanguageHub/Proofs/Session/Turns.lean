import LanguageHub.Proofs.Session.Steps

/-!
# What is done in a session's turn

Whoever has a session's turn may rely on its state, which others change at most from started
to failed, and on its clients. It moves the session from state to state in single steps.
-/

namespace LanguageHub

open Routine Pact HubMoment

namespace Scene

variable {u : String} {a : Actor} {x y : Scene} {turns : Bool} {content : Buffer}

/-- What a call knows; other tasks know nothing. -/
def Known (u : String) (a : Actor) (turns : Bool) (content : Buffer) (x : Scene) : Prop :=
  a.isCall = true → x.Ground u a turns content

/-- Two scenes with the same text, locks and synchronizers. -/
structure Alike (x y : Scene) : Prop where
  session : y.session = x.session
  lock : y.lock = x.lock
  owner : y.owner = x.owner
  synchronizers : y.synchronizers = x.synchronizers
  alone : y.alone = x.alone
  text : y.text = x.text
  phase : y.phase = x.phase

theorem Alike.holds (h : x.Alike y) {n : LockName} {t : Nat} (hx : x.Holds a n t) :
    y.Holds a n t := by
  refine ⟨?_, ?_, ?_⟩
  · rw [h.lock]
    exact hx.holder
  · rw [h.lock]
    exact hx.issued
  · rw [h.owner]
    exact hx.owner

theorem Alike.quiet (h : x.Alike y) (hx : x.Quiet u) : y.Quiet u := by
  intro k hk
  rw [h.lock]
  refine hx k ?_
  simpa only [Concerns, synchronizer, h.synchronizers] using hk

theorem Alike.known (h : x.Alike y) (hx : x.Known u a turns content) :
    y.Known u a turns content := fun ha =>
  have hg := hx ha
  { alone := h.alone.trans hg.alone
    own := by
      rw [h.lock, h.owner]
      exact hg.own
    text := fun hturns => h.text.trans (hg.text hturns)
    phase := fun hturns => h.phase.trans (hg.phase hturns)
    quiet := fun hturns => h.quiet (hg.quiet hturns) }

theorem Known.rely (h : x.Known u a turns content) (hxy : x.Rely u a y) (hy : y.Inv u) :
    y.Known u a turns content := fun ha => (h ha).rely ha hxy hy

/-- What the others do not change while the session's turn is taken. -/
def Steady (u : String) (F : Scene → Prop) : Prop :=
  ∀ x y : Scene, x.Always y → TurnKept u x y → F x → F y

theorem steady_true : Steady u fun _ => True := fun _ _ _ _ h => h

theorem steady_state {state : ServerState} (hne : state ≠ .started) :
    Steady u fun x => x.state = state := fun _ _ _ h hx => by
  rcases h.state with heq | ⟨hstarted, -⟩
  · exact heq.trans hx
  · exact absurd (hx.symm.trans hstarted) hne

theorem steady_unused (i : Nat) : Steady u fun x => x.Unused i := fun x y hxy h hx => by
  refine ⟨Nat.lt_of_lt_of_le hx.1 hxy.links, fun c hc => ?_⟩
  rw [h.clients] at hc
  rw [hxy.linkOf c hc]
  exact hx.2 c hc

/-- The client is there, and the session has not spoken through it. -/
def Unspoken (x : Scene) (c : Nat) : Prop := c < x.clients ∧ ¬ x.spoken c

theorem steady_unspoken (c : Nat) : Steady u fun x => x.Unspoken c := fun _ _ hxy h hx =>
  ⟨Nat.lt_of_lt_of_le hx.1 hxy.clients, fun hspoken => hx.2 (h.spoken c hspoken)⟩

/-- The document is not connected, and nobody is about to speak of it. -/
def Unheard (u : String) (x : Scene) : Prop := x.attached u = none ∧ x.Quiet u

theorem steady_unheard : Steady u fun x => x.Unheard u := fun _ _ _ h hx =>
  ⟨h.attached_none hx.1, h.quiet hx.1 hx.2⟩

theorem Steady.and {F F' : Scene → Prop} (h : Steady u F) (h' : Steady u F') :
    Steady u fun x => F x ∧ F' x := fun _ _ hxy hkept hx =>
  ⟨h _ _ hxy hkept hx.1, h' _ _ hxy hkept hx.2⟩

end Scene

/-! ## Steps in a turn -/

variable {s : Nat} {u : String} {a : Actor} {turns : Bool} {content : Buffer} {t : Nat}
  {α β : Type} {F F' : Scene → Prop}

/-- The task has the session's turn and knows this. -/
structure Acts (s : Nat) (u : String) (a : Actor) (turns : Bool) (content : Buffer) (t : Nat)
    (F : Scene → Prop) (m : HubMoment s u a) : Prop where
  turn : m.InTurn t
  known : m.scene.Known u a turns content
  fact : F m.scene

theorem lasting_acts (hF : Scene.Steady u F) : Lasting (Acts s u a turns content t F) :=
  fun m m' hm' hlater h =>
    ⟨lasting_inTurn t m m' hm' hlater h.turn, h.known.rely hlater.rely hm'.inv,
      hF _ _ hlater.rely.always (h.turn.kept hlater) h.fact⟩

theorem plain_acts : Plain (Acts s u a turns content t F) := fun m m' hstart hscene h => by
  have horigin : m'.origin = m.origin := congrArg (World.scene s) hstart
  refine ⟨⟨?_, ?_⟩, ?_, ?_⟩
  · rw [hscene]
    exact h.turn.now
  · rw [horigin]
    exact h.turn.origin
  · rw [hscene]
    exact h.known
  · rw [hscene]
    exact h.fact

/-- A change in the turn after which the task knows something else. -/
structure HubMoment.Steps (F' : Scene → Prop) (m : HubMoment s u a) (h : Hub) : Prop where
  alike : m.scene.Alike (scene (m.set h))
  inv : (scene (m.set h)).Inv u
  guarantee : m.scene.Guarantee u a (scene (m.set h))
  fact : F' (scene (m.set h))

theorem HubMoment.Steps.acts {m : HubMoment s u a} {h : Hub} (hstep : m.Steps F' h)
    (hm : m.Sound) (hacts : Acts s u a turns content t F m) :
    (m.set h).Sound ∧ Acts s u a turns content t F' (m.set h) :=
  ⟨sound_set hm hstep.inv hstep.guarantee,
    ⟨⟨hstep.alike.holds hacts.turn.now, hacts.turn.origin⟩, hstep.alike.known hacts.known,
      hstep.fact⟩⟩

theorem reaches_step {f : Hub → Hub}
    (h : ∀ m, m.Sound → Acts s u a turns content t F m →
      (pact s u a).allows m.start m.state (f m.state) → m.Steps F' (f m.state)) :
    Reaches (Acts s u a turns content t F) (modify f : Program Unit)
      fun _ => Acts s u a turns content t F' :=
  reaches_modify fun m hm hacts hallows => (h m hm hacts hallows).acts hm hacts

theorem reaches_stepGet {f : Hub → α × Hub} {G : α → Scene → Prop}
    (h : ∀ m, m.Sound → Acts s u a turns content t F m → m.Steps (G (f m.state).1) (f m.state).2) :
    Reaches (Acts s u a turns content t F) (modifyGet f)
      fun b => Acts s u a turns content t (G b) :=
  fun m hm hacts _ => (h m hm hacts).acts hm hacts

theorem Reaches.ensuring {P : HubMoment s u a → Prop} {Q : α → HubMoment s u a → Prop}
    {p : Program α} {cleanup : Hub → Hub} (hp : Reaches P p Q) (hQ : ∀ b, Lasting (Q b))
    (hcleanup : ∀ h, (cleanup h).outline s = h.outline s) :
    Reaches P (Routine.ensuring cleanup p) Q := fun m hm hPm =>
  keeps_ensuring ((hp m hm hPm).mono fun m' b hgoal _ => by
    obtain ⟨hsound, hlater⟩ := sound_silent (h := cleanup m'.state) hgoal.1 (hcleanup m'.state)
    exact ⟨hsound, hQ b _ _ hsound hlater hgoal.2⟩)

/-- A neutral program in a turn. -/
theorem reaches_neutral {p : Program α} {P : Scene → Prop} (hF : Scene.Steady u F)
    (hp : Neutral s u a P p) (hP : ∀ m : HubMoment s u a, m.Sound → F m.scene → P m.scene) :
    Reaches (Acts s u a turns content t F) p fun _ => Acts s u a turns content t F :=
  reaches_of_neutral (lasting_acts hF) fun m hm hacts => hp m hm (hP m hm hacts.fact)

/-! ## Single steps -/

theorem HubMoment.scene_onSession {m : HubMoment s u a} {f : Session → Session} (hm : m.Sound)
    (hspeaker : ∀ c, (f (m.state.session s)).running.map (·.client) = some c → m.scene.spoken c) :
    scene (m.set (m.state.onSession s f)) =
      { m.scene with
        state := (f (m.state.session s)).state
        documents := (f (m.state.session s)).documents
        speaker := (f (m.state.session s)).running.map (·.client) } :=
  scene_set_eq (Hub.outline_onSession (known hm)) rfl hspeaker

namespace Session

theorem steps_fade {m : HubMoment s u a} {h : Hub} (state : ServerState)
    (speaker : Option Nat) (isOpen isDue : Nat → Bool) (hm : m.Sound) (hturn : m.InTurn t)
    (hout : h.outline s = (m.scene.fade state speaker isOpen isDue).toOutline)
    (hfades : m.scene.Fades state speaker isOpen isDue)
    (hbare : state.IsBare → m.scene.documents = [])
    (hF' : F' (m.scene.fade state speaker isOpen isDue)) : m.Steps F' h := by
  have hscene := scene_fade hm hout hfades
  refine ⟨?_, ?_, ?_, ?_⟩
  · rw [hscene]
    exact ⟨rfl, rfl, rfl, rfl, rfl, rfl, rfl⟩
  · rw [hscene]
    exact Scene.Inv.fade hm.inv hfades hbare fun hfree => absurd hfree hturn.now.not_free
  · rw [hscene]
    exact Scene.guarantee_fade hfades (.inr ⟨t, hturn.now⟩)
  · rw [hscene]
    exact hF'

/-- The session moves to a state that is not the started one. -/
theorem reaches_enter {state : ServerState} (hne : state ≠ .started)
    (hbare : state.IsBare → ∀ m : HubMoment s u a, m.Sound → F m.scene → m.scene.documents = [])
    (hF' : ∀ x, F x → F' (x.fade state x.speaker x.isOpen x.isDue)) :
    Reaches (Acts s u a turns content t F) (modify (enter s state) : Program Unit)
      fun _ => Acts s u a turns content t F' :=
  reaches_step fun m hm hacts _ =>
    steps_fade state m.scene.speaker m.scene.isOpen m.scene.isDue hm hacts.turn
      (Hub.outline_enter (known hm) state)
      ⟨.inr hne, .inl rfl, fun _ h => h, fun _ h => h⟩
      (fun h => hbare h m hm hacts.fact) (hF' _ hacts.fact)

theorem reaches_failWith (e : HubError) :
    Reaches (Acts s u a turns content t F) (failWith s e : Program (Except HubError α))
      fun r m => r = .error e ∧ Acts s u a turns content t (fun x => x.state = .failed) m :=
  Reaches.bind (reaches_step fun m hm hacts _ =>
    steps_fade .failed m.scene.speaker m.scene.isOpen m.scene.isDue hm hacts.turn
      (Hub.outline_fail (known hm) e)
      ⟨.inr (by simp), .inl rfl, fun _ h => h, fun _ h => h⟩
      (by simp [ServerState.IsBare]) rfl)
    fun _ => reaches_pure _ fun _ h => ⟨rfl, h⟩

theorem steps_same {m : HubMoment s u a} {h : Hub} (hm : m.Sound)
    (hout : h.outline s = m.state.outline s) (hF' : F' m.scene) : m.Steps F' h := by
  have hscene := scene_set_of_outline hout (voiced_of_sound hm)
  refine ⟨?_, ?_, ?_, ?_⟩
  · rw [hscene]
    exact ⟨rfl, rfl, rfl, rfl, rfl, rfl, rfl⟩
  · rw [hscene]
    exact hm.inv
  · rw [hscene]
    exact .refl u a _
  · rw [hscene]
    exact hF'

end Session

end LanguageHub

/-!
## Stops

A stop says goodbye, takes the connection down and leaves the session without documents. It
needs the session's turn and keeps it.
-/

namespace LanguageHub

open Routine Pact HubMoment

namespace Session

variable {s : Nat} {u : String} {a : Actor} {turns : Bool} {content : Buffer} {t : Nat}

/-- A session that stops forgets its documents. -/
theorem reaches_forget :
    Reaches (Acts s u a turns content t fun x => x.state = .stopping)
      (modify (Hub.onSession s fun session =>
        { session with documents := [], startedAt := none }) : Program Unit)
      fun _ => Acts s u a turns content t fun x => x.state = .stopping ∧ x.documents = [] := by
  refine reaches_step fun m hm hacts _ => ?_
  have hne : m.scene.state ≠ .started := by simp [hacts.fact]
  have hscene : scene (m.set (m.state.onSession s fun session =>
      { session with documents := [], startedAt := none })) = m.scene.clear :=
    scene_onSession hm (voiced_of_sound hm)
  refine ⟨?_, ?_, ?_, ?_⟩
  · rw [hscene]
    exact ⟨rfl, rfl, rfl, rfl, rfl, rfl, rfl⟩
  · rw [hscene]
    exact Scene.Inv.clear hm.inv hne
  · rw [hscene]
    exact Scene.guarantee_clear hne
  · rw [hscene]
    exact ⟨hacts.fact, rfl⟩

/-! ### Stopping -/

/-- The session is not running, so that it has no documents. -/
def IsDown (x : Scene) : Prop := x.state = .notStarted ∨ x.state = .stopped

theorem IsDown.isBare {x : Scene} (h : IsDown x) : x.state.IsBare :=
  h.elim .inl fun h => .inr (.inr (.inr h))

theorem IsDown.isAtRest {x : Scene} (h : IsDown x) : x.state.IsAtRest :=
  h.elim .inl fun h => .inr (.inr (.inl h))

theorem reaches_stopInTurn :
    Reaches (Acts s u a turns content t fun _ => True) (stopInTurn s)
      fun _ => Acts s u a turns content t IsDown := by
  have hstopping : Scene.Steady u fun x => x.state = .stopping := Scene.steady_state (by simp)
  refine reaches_get (lasting_acts Scene.steady_true) fun h => ?_
  dsimp only
  split
  · rename_i hdown
    refine reaches_pure _ fun m hm => ?_
    obtain ⟨hacts, rfl⟩ := hm
    exact ⟨hacts.turn, hacts.known, hdown⟩
  · refine Reaches.weaken (P := Acts s u a turns content t fun _ => True) ?_
      (fun m _ hm => hm.1) fun _ _ hm => hm
    refine Reaches.bind (reaches_neutral (P := fun _ => True) Scene.steady_true
      (neutral_onSession (fun _ => rfl) (fun _ => rfl) fun _ => rfl) fun _ _ h => h) fun _ => ?_
    refine Reaches.bind (Q := fun _ => Acts s u a turns content t fun x => x.state = .stopping)
      (reaches_enter (by simp) (by simp [ServerState.IsBare]) fun _ _ => rfl) fun _ => ?_
    refine Reaches.bind (reaches_neutral (P := fun _ => True) hstopping neutral_sayGoodbye
      fun _ _ _ => trivial) fun _ => ?_
    refine Reaches.bind (reaches_neutral (P := fun _ => True) hstopping
      (neutral_tearDown stable_true) fun _ _ _ => trivial) fun _ => ?_
    refine Reaches.bind reaches_forget fun _ => ?_
    exact reaches_enter (by simp) (fun _ m _ hm => hm.2) fun _ _ => .inr rfl

end Session

end LanguageHub
