import LanguageHub.Proofs.Lifecycle.Turn
import LanguageHub.Proofs.Routine.Leg

/-!
# Programs at a session

What a program reaches is said by what holds of the world before and after it; in between it
keeps the pact at the session. What lasts is not lost by anything that spares the session.
-/

namespace LanguageHub.Lifecycle

open Routine Pact

variable {s me t : Nat} {α β : Type}

/-- From `P` on the program comes to `Q` and keeps the pact on the way. -/
def Reaches (s me : Nat) (P : World → Prop) (p : Program α) (Q : α → World → Prop) : Prop :=
  ∀ m : Moment (pact s me), m.Sound → P m.now →
    p.Keeps (fun _ _ => True) m fun m' b => m'.Sound ∧ Q b m'.now

/-- What the others do not change while the task waits. -/
def Lasting (s me : Nat) (P : World → Prop) : Prop :=
  ∀ w w' : World, w'.Inv s → Binds s (· = me) w w' → P w → P w'

section Rules

variable {P P' : World → Prop} {Q Q' : α → World → Prop} {p : Program α}

theorem lasting_true : Lasting s me fun _ => True := fun _ _ _ _ h => h

theorem sound_set {m : Moment (pact s me)} {h : Hub} (hm : m.Sound) (hacts : Acts s me m.now h) :
    (m.set h).Sound :=
  ⟨hacts.inv hm.inv, hm.guarantee.trans hacts.binds, hm.jobs⟩

theorem sound_resume {w : World} (hw : w.Inv s) : (Moment.resume w : Moment (pact s me)).Sound :=
  ⟨hw, .refl _ w, fun _ hjob => (nomatch hjob)⟩

theorem sound_spawned {m : Moment (pact s me)} (hm : m.Sound) {job : Job} (hjob : job.IsAt s) :
    (m.spawned job).Sound := by
  refine ⟨hm.inv, hm.guarantee, fun job' hjob' => ?_⟩
  rcases List.mem_append.mp hjob' with hold | hlast
  · exact hm.jobs job' hold
  · rwa [List.mem_singleton.mp hlast]

theorem Reaches.weaken (h : Reaches s me P p Q) (hP : ∀ w, P' w → P w)
    (hQ : ∀ b w, Q b w → Q' b w) : Reaches s me P' p Q' :=
  Pact.Reaches.weaken h hP hQ

theorem reaches_pure (b : α) (h : ∀ w, P w → Q b w) : Reaches s me P (pure b : Program α) Q :=
  Pact.Reaches.pure b h

theorem Reaches.bind {f : α → Program β} {R : β → World → Prop} (hp : Reaches s me P p Q)
    (hf : ∀ b, Reaches s me (Q b) (f b) R) : Reaches s me P (p >>= f) R :=
  Pact.Reaches.bind hp hf

/-- What lasts is not lost by what spares the session. -/
theorem reaches_of_sparing (hP : Lasting s me P) (hp : Sparing s p) :
    Reaches s me P p fun _ => P := by
  induction p with
  | done b => exact fun m hm hPm => ⟨hm, hPm⟩
  | act update next ih =>
    intro m hm hPm _
    have hspares : Hub.Spares s (World.hub m.now) (update m.state) := hp.1 m.state
    have hsound : (m.set (update m.state)).Sound := sound_set hm (acts_of_spares hspares hm.inv)
    exact ih m.state (hp.2 m.state) _ hsound (hP _ _ hsound.inv (rely_of_spares hspares) hPm)
  | spawn job next ih =>
    exact fun m hm hPm => ih hp.2 (m.spawned job) (sound_spawned hm hp.1) hPm
  | await ready abandon next ih =>
    exact fun m hm hPm => ⟨hm, fun w hw hrely => ⟨trivial, fun _ =>
      ih hp.2 (.resume w) (sound_resume hw) (hP _ _ hw hrely hPm)⟩⟩

theorem reaches_modify {f : Hub → Hub} {Q : World → Prop}
    (h : ∀ w : World, w.Inv s → P w → Acts s me w (f w.hub) ∧ Q (w.move s me (f w.hub))) :
    Reaches s me P (modify f : Program Unit) fun _ => Q := fun m hm hPm _ =>
  ⟨sound_set hm (h m.now hm.inv hPm).1, (h m.now hm.inv hPm).2⟩

theorem reaches_modifyGet {f : Hub → α × Hub}
    (h : ∀ w : World, w.Inv s → P w →
      Acts s me w (f w.hub).2 ∧ Q (f w.hub).1 (w.move s me (f w.hub).2)) :
    Reaches s me P (modifyGet f : Program α) Q := fun m hm hPm _ =>
  ⟨sound_set hm (h m.now hm.inv hPm).1, (h m.now hm.inv hPm).2⟩

/-- What follows the state may depend on how it is at the moment. -/
theorem reaches_get {next : Hub → Program α} (hP : ∀ w : World, P w → P (w.move s me w.hub))
    (hnext : ∀ h, Reaches s me (fun w => P w ∧ w.hub = h) (next h) Q) :
    Reaches s me P (get >>= next) Q := fun m hm hPm _ =>
  hnext m.state _ (sound_set hm (acts_of_spares (.refl s _) hm.inv)) ⟨hP _ hPm, rfl⟩

theorem Reaches.ensuring {cleanup : Hub → Hub} (hp : Reaches s me P p Q)
    (hQ : ∀ b, Lasting s me (Q b)) (hcleanup : ∀ h, Hub.Spares s h (cleanup h)) :
    Reaches s me P (Routine.ensuring cleanup p) Q := fun m hm hPm =>
  keeps_ensuring ((hp m hm hPm).mono fun m' b hgoal _ => by
    have hspares : Hub.Spares s (World.hub m'.now) (cleanup m'.state) := hcleanup m'.state
    have hsound : (m'.set (cleanup m'.state)).Sound :=
      sound_set hgoal.1 (acts_of_spares hspares hgoal.1.inv)
    exact ⟨hsound, hQ b _ _ hsound.inv (rely_of_spares hspares) hgoal.2⟩)

/-- Another lock may be held meanwhile. -/
theorem Reaches.withLock {n : LockName} (hn : n ≠ .lifecycle s) (hP : Lasting s me P)
    (hp : Reaches s me P p Q) (hQ : ∀ b, Lasting s me (Q b)) :
    Reaches s me P (Program.withLock n p) Q :=
  .bind (reaches_of_sparing hP (sparing_modifyGet fun _ => Hub.spares_setLock hn _)) fun _ =>
    .ensuring (.bind (reaches_of_sparing hP (sparing_waitUntil _)) fun _ => hp) hQ
      fun _ => Hub.spares_setLock hn _

end Rules

/-! ## In turn -/

/-- What others do not change of a session while someone has its turn. -/
def Steady (F : Session → Prop) : Prop := ∀ x y, Meddles x y → y.InOrder → F x → F y

theorem steady_state {state : ServerState} (hne : state ≠ .started) :
    Steady fun x => x.state = state := fun x _ hmeddles _ hx =>
  (hmeddles.state_eq (by rwa [hx])).trans hx

/-- The task has the session's turn and knows this of the session. -/
structure InTurn (s me t : Nat) (F : Session → Prop) (w : World) : Prop where
  holds : w.Holds s me t
  fact : F (w.session s)

variable {F F' : Session → Prop}

theorem lasting_inTurn (hF : Steady F) : Lasting s me (InTurn s me t F) := fun _ _ hw' hbinds h =>
  ⟨hbinds.holds h.holds, hF _ _ (hbinds.meddles h.holds) hw'.order h.fact⟩

theorem inTurn_move (w : World) (h : InTurn s me t F w) : InTurn s me t F (w.move s me w.hub) :=
  ⟨holds_move rfl h.holds, h.fact⟩

theorem reaches_inTurn {p : Program α} (hF : Steady F) (hp : Sparing s p) :
    Reaches s me (InTurn s me t F) p fun _ => InTurn s me t F :=
  reaches_of_sparing (lasting_inTurn hF) hp

/-- A step of the task that has the turn. -/
structure Steps (s : Nat) (F' : Session → Prop) (h h' : Hub) : Prop where
  lock : h'.lock (.lifecycle s) = h.lock (.lifecycle s)
  known : s < h'.sessions.length
  order : (h'.session s).InOrder
  lawful : Hub.Lawful s h h'
  fact : F' (h'.session s)

theorem Steps.acts {w : World} {h : Hub} (hsteps : Steps s F' w.hub h) (hw : w.Holds s me t) :
    Acts s me w h ∧ InTurn s me t F' (w.move s me h) :=
  ⟨⟨hsteps.lock, hsteps.known, hsteps.order, hsteps.lawful, .inr ⟨t, hw⟩⟩,
    ⟨holds_move hsteps.lock hw, hsteps.fact⟩⟩

theorem Steps.meddles {w : World} {h : Hub} (hsteps : Steps s F' w.hub h)
    (hmeddles : Meddles (w.session s) (h.session s)) : Acts s me w h :=
  ⟨hsteps.lock, hsteps.known, hsteps.order, hsteps.lawful, .inl hmeddles⟩

theorem reaches_step {f : Hub → Hub}
    (h : ∀ h : Hub, s < h.sessions.length → (h.session s).InOrder → F (h.session s) →
      Steps s F' h (f h)) :
    Reaches s me (InTurn s me t F) (modify f : Program Unit) fun _ => InTurn s me t F' :=
  reaches_modify fun w hw hP => (h w.hub hw.known hw.order hP.fact).acts hP.holds

theorem reaches_stepGet {f : Hub → α × Hub} {G : α → Session → Prop}
    (h : ∀ h : Hub, s < h.sessions.length → (h.session s).InOrder → F (h.session s) →
      Steps s (G (f h).1) h (f h).2) :
    Reaches s me (InTurn s me t F) (modifyGet f : Program α) fun b => InTurn s me t (G b) :=
  reaches_modifyGet fun w hw hP => (h w.hub hw.known hw.order hP.fact).acts hP.holds

/-- Whoever comes for the turn finds the session at rest, and has to leave it so. -/
theorem reaches_withTurn {p : Program α} {G : α → Session → Prop}
    (hp : ∀ t, Reaches s me (InTurn s me t fun x => x.state.IsAtRest) p
      fun b => InTurn s me t fun x => x.state.IsAtRest ∧ G b x) :
    Reaches s me (fun _ => True) (Program.withLock (.lifecycle s) p) fun b w => G b (w.session s) :=
  fun m hm _ _ => by
    have hticket : (Hub.enterLock (.lifecycle s) m.state).1 = (World.lock s m.now).next :=
      Lock.enter_ticket _
    change Keeps _ (Routine.ensuring
      (Hub.leaveLock (.lifecycle s) (Hub.enterLock (.lifecycle s) m.state).1)
      (waitUntil (fun h => (h.lock (.lifecycle s)).isHeldBy
        (Hub.enterLock (.lifecycle s) m.state).1) >>= fun _ => p)) _ _
    rw [hticket]
    refine keeps_ensuring (keeps_bind.mpr ⟨⟨inv_enter hm.inv, hm.guarantee.trans binds_enter,
      hm.jobs⟩, fun w hw hrely => ⟨trivial, fun hready => ?_⟩⟩)
    obtain ⟨hholds, hrest⟩ := holds_of_entered hm.inv hrely ((Lock.isHeldBy_iff _ _).mp hready)
    refine (hp _ (.resume w) (sound_resume hw) ⟨hholds, hrest⟩).mono fun m' b hgoal _ => ?_
    obtain ⟨hsound, hturn⟩ := hgoal
    obtain ⟨hinv, hbinds⟩ := leave_turn hsound.inv hturn.holds hturn.fact.1
    exact ⟨⟨hinv, hsound.guarantee.trans hbinds, hsound.jobs⟩, hturn.fact.2⟩

end LanguageHub.Lifecycle
