import LanguageHub.Proofs.Hub.Changes
import LanguageHub.Proofs.Routine.Leg

/-!
# The pact of the hub's tasks

A task that acts keeps the scene around the document in order. Most programs change nothing
that belongs to others or that they hold themselves: they are neutral, and what is known
before them is still known after them.
-/

namespace LanguageHub

open Routine Pact

/-! ## Worlds -/

/-- The hub with the rest of the scene. -/
structure World where
  hub : Hub
  text : Buffer
  phase : EditPhase
  alone : Bool
  owner : LockName → Nat → Nat
  spoken : Nat → Prop

namespace World

def scene (s : Nat) (w : World) : Scene :=
  { w.hub.outline s with
    text := w.text, phase := w.phase, alone := w.alone, owner := w.owner, spoken := w.spoken }

/-- The world once a task has brought the hub to this. New tickets are the task's. -/
def move (s me : Nat) (w : World) (h : Hub) : World :=
  { w with
    hub := h
    owner := fun n t =>
      if (w.hub.lock n).next ≤ t ∧ t < (h.lock n).next then me else w.owner n t
    spoken := fun c => w.spoken c ∨ (h.outline s).speaker = some c }

end World

/-- When calls do not take turns, nobody is about to tell a server of the document when the
session comes to be started, and the document is attached with the editor's text, while no edit
is under way. -/
structure Hub.Orderly (s : Nat) (u : String) (text : Buffer) (phase : EditPhase) (h h' : Hub) :
    Prop where
  started : (h.session s).state ≠ .started → (h'.session s).state = .started →
    ∀ k, k < h.synchronizers.length → (h.synchronizer k).uri = u →
      (h.lock (.send k)).isFree = true
  attached : ∀ k, (h'.session s).synchronizer? u = some k → (h.session s).synchronizer? u ≠ some k →
    phase = .idle ∧ (h'.synchronizer k).lastText = text.text

theorem Hub.orderly_iff {s : Nat} {u : String} {text : Buffer} {phase : EditPhase} {h h' : Hub} :
    h.Orderly s u text phase h' ↔
      ((h.session s).state ≠ .started → (h'.session s).state = .started →
        ∀ k, k < h.synchronizers.length → (h.synchronizer k).uri = u →
          (h.lock (.send k)).isFree = true) ∧
      ∀ k ∈ (h'.session s).synchronizer? u, (h.session s).synchronizer? u ≠ some k →
        phase = .idle ∧ (h'.synchronizer k).lastText = text.text :=
  ⟨fun ⟨hstarted, hattached⟩ => ⟨hstarted, hattached⟩,
    fun ⟨hstarted, hattached⟩ => ⟨hstarted, hattached⟩⟩

instance (s : Nat) (u : String) (text : Buffer) (phase : EditPhase) (h h' : Hub) :
    Decidable (h.Orderly s u text phase h') := decidable_of_iff' _ Hub.orderly_iff

/-- What a job of the session needs that is started. -/
def Scene.Starts (x : Scene) : Job → Prop
  | .read c => c < x.clients
  | .watchConnection s c _ => s = x.session ∧ c < x.clients
  | .stopWhenIdle s _ => s = x.session
  | _ => False

theorem Scene.Starts.always {x y : Scene} {job : Job} (h : x.Starts job) (hxy : x.Always y) :
    y.Starts job := by
  cases job with
  | read c => exact Nat.lt_of_lt_of_le h hxy.clients
  | watchConnection s c epoch =>
    exact ⟨h.1.trans hxy.session.symm, Nat.lt_of_lt_of_le h.2 hxy.clients⟩
  | stopWhenIdle s attachments => exact Eq.trans h hxy.session.symm
  | watchRegistry cursor => exact h
  | call slot c => exact h

/-- The pact around document `u` at session `s`. -/
abbrev pact (s : Nat) (u : String) (a : Actor) : Pact Job Hub where
  World := World
  state := World.hub
  move := World.move s a.id
  state_move _ _ := rfl
  allows w h h' := w.alone = false → h.Orderly s u w.text w.phase h'
  inv w := (w.scene s).Inv u
  guarantee w w' := (w.scene s).Guarantee u a (w'.scene s)
  rely w w' := (w.scene s).Rely u a (w'.scene s)
  starts w job := (w.scene s).Starts job

/-! ## Moments -/

abbrev HubMoment (s : Nat) (u : String) (a : Actor) := Moment (pact s u a)

variable {s : Nat} {u : String} {a : Actor}

namespace HubMoment

/-- The scene as it is now. -/
def scene (m : HubMoment s u a) : Scene := World.scene s m.now

/-- The scene in which the task went on. -/
def origin (m : HubMoment s u a) : Scene := World.scene s m.start

/-- At the moment `m'` everything still is as the task may rely on since `m`. -/
structure Later (m m' : HubMoment s u a) : Prop where
  rely : m.scene.Rely u a m'.scene
  origin : m'.start = m.start ∨ m.scene.Rely u a m'.origin

theorem Later.refl (m : HubMoment s u a) : Later m m := ⟨.refl u a _, .inl rfl⟩

theorem Later.trans {m m' m'' : HubMoment s u a} (h : Later m m') (h' : Later m' m'') :
    Later m m'' where
  rely := h.rely.trans h'.rely
  origin := by
    rcases h'.origin with heq | hrely
    · rcases h.origin with heq' | hrely'
      · exact .inl (heq.trans heq')
      · refine .inr ?_
        have horigin : m''.origin = m'.origin := congrArg (World.scene s) heq
        rwa [horigin]
    · exact .inr (h.rely.trans hrely)

/-- Whatever is later than the start of a turn goes on in a turn that is later, too. -/
theorem Later.rely_origin {m m' : HubMoment s u a} {x : Scene} (h : Later m m')
    (hrely : x.Rely u a m.scene) (horigin : m.origin = m.scene) : x.Rely u a m'.origin := by
  rcases h.origin with heq | hrely'
  · have hsame : m'.origin = m.scene := (congrArg (World.scene s) heq).trans horigin
    rwa [hsame]
  · exact hrely.trans hrely'

theorem later_of_origin {m m' : HubMoment s u a} (h : m.scene.Rely u a m'.scene)
    (horigin : m'.origin = m'.scene) : Later m m' := ⟨h, .inr (horigin.symm ▸ h)⟩

theorem later_resume {m : HubMoment s u a} {w : World} (h : m.scene.Rely u a (w.scene s)) :
    Later m (Moment.resume w) := later_of_origin h rfl

variable {m : HubMoment s u a}

theorem scene_set (h : Hub) : scene (m.set h) = (World.move s a.id m.now h).scene s := rfl

theorem later_set {h : Hub} (hrely : m.scene.Rely u a (scene (m.set h))) : Later m (m.set h) :=
  ⟨hrely, .inl rfl⟩

/-- The session has spoken through its client. -/
def Voiced (m : HubMoment s u a) : Prop := ∀ c, m.scene.speaker = some c → m.scene.spoken c

theorem voiced_of_sound (hm : m.Sound) : m.Voiced := (Scene.Inv.wired hm.inv).speaker

theorem known (hm : m.Sound) : (m.state.outline s).isKnown = true := Scene.Inv.known hm.inv

theorem voiced_set (m : HubMoment s u a) (h : Hub) : Voiced (m.set h) := fun _ hc => .inr hc

/-- A change that gives no tickets out and no new client to the session shows in the outline
alone. -/
theorem scene_set_of_next {h : Hub} (hnext : ∀ n, (h.lock n).next = (m.state.lock n).next)
    (hspeaker : ∀ c, (h.outline s).speaker = some c → m.scene.spoken c) :
    scene (m.set h) = { m.scene with toOutline := h.outline s } := by
  have howner : (World.move s a.id m.now h).owner = World.owner m.now := by
    funext n t
    refine if_neg ?_
    rw [hnext]
    exact fun hboth => Nat.lt_irrefl _ (Nat.lt_of_le_of_lt hboth.1 hboth.2)
  have hspoken : (World.move s a.id m.now h).spoken = World.spoken m.now := by
    funext c
    simp only [World.move, eq_iff_iff, or_iff_left_iff_imp]
    exact hspeaker c
  simp only [scene_set, World.scene, howner, hspoken]
  rfl

/-- The scene once the hub has this outline, with the same locks and no new client. -/
theorem scene_set_eq {h : Hub} {o : Outline} (hout : h.outline s = o)
    (hlock : o.lock = m.scene.lock) (hspeaker : ∀ c, o.speaker = some c → m.scene.spoken c) :
    scene (m.set h) = { m.scene with toOutline := o } := by
  subst hout
  exact scene_set_of_next (fun n => congrArg (fun lock : LockName → Lock => (lock n).next) hlock)
    hspeaker

theorem move_self {w : World} (h : (w.scene s).Inv u) : World.move s a.id w w.hub = w := by
  have howner : (World.move s a.id w w.hub).owner = w.owner := by
    funext n t
    exact if_neg fun hboth => Nat.lt_irrefl _ (Nat.lt_of_le_of_lt hboth.1 hboth.2)
  have hspoken : (World.move s a.id w w.hub).spoken = w.spoken := by
    funext c
    simp only [World.move, eq_iff_iff, or_iff_left_iff_imp]
    exact h.wired.speaker c
  change World.mk w.hub w.text w.phase w.alone (World.move s a.id w w.hub).owner
    (World.move s a.id w w.hub).spoken = w
  rw [howner, hspoken]

/-- A change that the outline does not show. -/
theorem scene_set_of_outline {h : Hub} (hout : h.outline s = m.state.outline s)
    (hvoiced : m.Voiced) : scene (m.set h) = m.scene :=
  scene_set_eq hout rfl hvoiced

/-- The scene depends on the outline alone. -/
theorem scene_set_congr {h h' : Hub} (hout : h.outline s = h'.outline s) :
    scene (m.set h) = scene (m.set h') := by
  have hlock : h.lock = h'.lock := congrArg Outline.lock hout
  simp only [scene_set, World.scene, World.move, hlock, hout]

/-- Two changes one after the other, of which the second keeps the client of the session. -/
theorem scene_set_set {h h' : Hub} (hnext : ∀ n, (m.state.lock n).next ≤ (h.lock n).next)
    (hnext' : ∀ n, (h.lock n).next ≤ (h'.lock n).next)
    (hspeaker : (h'.outline s).speaker = (h.outline s).speaker) :
    scene ((m.set h).set h') = scene (m.set h') := by
  have hworld : World.move s a.id (World.move s a.id m.now h) h' = World.move s a.id m.now h' := by
    have howner : (World.move s a.id (World.move s a.id m.now h) h').owner =
        (World.move s a.id m.now h').owner := by
      funext n t
      have hfirst : ((World.hub m.now).lock n).next ≤ (h.lock n).next := hnext n
      have hsecond := hnext' n
      simp only [World.move]
      grind
    have hspoken : (World.move s a.id (World.move s a.id m.now h) h').spoken =
        (World.move s a.id m.now h').spoken := by
      funext c
      simp only [World.move, hspeaker, or_assoc, or_self]
    change World.mk h' _ _ _ (World.move s a.id (World.move s a.id m.now h) h').owner
      (World.move s a.id (World.move s a.id m.now h) h').spoken = _
    rw [howner, hspoken]
    rfl
  rw [scene_set, scene_set, ← hworld]
  rfl

theorem sound_of_scene {m' : HubMoment s u a} (hstart : m'.start = m.start)
    (hjobs : m'.jobs = m.jobs) (hscene : m'.scene = m.scene) (hm : m.Sound) : m'.Sound where
  inv := by
    have hinv : m.scene.Inv u := hm.inv
    rwa [← hscene] at hinv
  guarantee := by
    have hguarantee : m.origin.Guarantee u a m.scene := hm.guarantee
    rw [← hscene] at hguarantee
    change (World.scene s m'.start).Guarantee u a _
    rwa [hstart]
  jobs job hjob := by
    rw [hjobs] at hjob
    have hstarts : m.scene.Starts job := hm.jobs job hjob
    rwa [← hscene] at hstarts

theorem Later.of_scene {m₀ m' : HubMoment s u a} (hstart : m'.start = m.start)
    (hscene : m'.scene = m.scene) (hlater : Later m₀ m) : Later m₀ m' where
  rely := by
    rw [hscene]
    exact hlater.rely
  origin := by
    have horigin : m'.origin = m.origin := congrArg (World.scene s) hstart
    rw [hstart, horigin]
    exact hlater.origin

theorem sound_congr {h h' : Hub} (hout : h.outline s = h'.outline s) (hm : (m.set h).Sound) :
    (m.set h').Sound :=
  sound_of_scene (m := m.set h) rfl rfl (scene_set_congr hout).symm hm

theorem Later.congr {m₀ : HubMoment s u a} {h h' : Hub} (hout : h.outline s = h'.outline s)
    (hlater : Later m₀ (m.set h)) : Later m₀ (m.set h') :=
  hlater.of_scene (m := m.set h) rfl (scene_set_congr hout).symm

theorem sound_of_guarantee {m' : HubMoment s u a} (hm : m.Sound) (hstart : m'.start = m.start)
    (hjobs : m'.jobs = m.jobs) (hinv : m'.scene.Inv u)
    (hguarantee : m.scene.Guarantee u a m'.scene) : m'.Sound where
  inv := hinv
  guarantee := by
    have hwhole : m.origin.Guarantee u a m'.scene :=
      Scene.Guarantee.trans hm.guarantee hguarantee
    change (World.scene s m'.start).Guarantee u a _
    rwa [hstart]
  jobs job hjob := by
    rw [hjobs] at hjob
    exact (hm.jobs job hjob).always hguarantee.always

theorem sound_set {h : Hub} (hm : m.Sound) (hinv : (scene (m.set h)).Inv u)
    (hguarantee : m.scene.Guarantee u a (scene (m.set h))) : (m.set h).Sound :=
  sound_of_guarantee hm rfl rfl hinv hguarantee

theorem sound_silent {h : Hub} (hm : m.Sound) (hout : h.outline s = m.state.outline s) :
    (m.set h).Sound ∧ Later m (m.set h) := by
  have hscene := scene_set_of_outline hout (voiced_of_sound hm)
  refine ⟨sound_set hm ?_ ?_, later_set ?_⟩
  · rw [hscene]
    exact hm.inv
  · rw [hscene]
    exact .refl u a _
  · rw [hscene]
    exact .refl u a _

theorem sound_resume {w : World} (hinv : (w.scene s).Inv u) :
    (Moment.resume w : HubMoment s u a).Sound where
  inv := hinv
  guarantee := Scene.Guarantee.refl u a _
  jobs := by simp [Moment.resume]

end HubMoment

/-! ## Looking and waiting -/

theorem keeps_get {α : Type} {m : HubMoment s u a} {drop : World → Hub → Prop}
    {goal : HubMoment s u a → α → Prop} {next : Hub → Program α}
    (h : (next m.state).Keeps drop (m.set m.state) goal) : (get >>= next).Keeps drop m goal :=
  keeps_bind.mpr fun _ => h


open HubMoment in
/-- A program goes on where it waited, in a world that it may rely on. -/
theorem keeps_await {α : Type} {m : HubMoment s u a} {drop : World → Hub → Prop}
    {goal : HubMoment s u a → α → Prop} {ready : Hub → Bool} {cleanup : Hub → Hub}
    {next : Program α} (hm : m.Sound)
    (hdrop : ∀ w, (w.scene s).Inv u → m.scene.Rely u a (w.scene s) → drop w (cleanup w.hub))
    (hnext : ∀ m' : HubMoment s u a, m'.Sound → m.scene.Rely u a m'.scene →
      m'.origin = m'.scene → ready m'.state = true → next.Keeps drop m' goal) :
    (await ready cleanup next).Keeps drop m goal :=
  ⟨hm, fun w hinv hrely => ⟨hdrop w hinv hrely,
    hnext (Moment.resume w) (sound_resume hinv) hrely rfl⟩⟩

end LanguageHub
