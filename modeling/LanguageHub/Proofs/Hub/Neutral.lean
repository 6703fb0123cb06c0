import LanguageHub.Proofs.Hub.Queues

/-!
# Neutral programs

A neutral program leaves everything as others and its own task may rely on: it may wait, take
locks other than send locks, and write what is not about the document. What was known before
it is known after it.
-/

namespace LanguageHub

open Routine Pact

variable {s : Nat} {u : String} {a : Actor} {α β : Type}

namespace Scene

/-- A task holds a lock. -/
structure Holds (x : Scene) (a : Actor) (n : LockName) (t : Nat) : Prop where
  holder : (x.lock n).holder = some t
  issued : t < (x.lock n).next
  owner : x.owner n t = a.id

variable {x y : Scene} {n : LockName} {t : Nat}

theorem Rely.holds (h : x.Rely u a y) (hx : x.Holds a n t) : y.Holds a n t where
  holder := ((h.tickets n t hx.issued hx.owner).1 hx.holder).1
  issued := Nat.lt_of_lt_of_le hx.issued (h.always.next n)
  owner := (h.always.owner n t hx.issued).trans hx.owner

theorem Rely.protected (h : x.Rely u a y) (hx : x.Holds a n t) : Protected u x y n :=
  ((h.tickets n t hx.issued hx.owner).1 hx.holder).2

/-- Nobody else holds what the actor holds. -/
theorem Holds.not_other (h : x.Holds a n t) {t' : Nat} (hother : x.owner n t' ≠ a.id) :
    (x.lock n).holder ≠ some t' := by
  intro hheld
  obtain rfl := Option.some.inj (h.holder.symm.trans hheld)
  exact hother h.owner

/-- The lifecycle lock is not free while someone has the turn. -/
theorem Holds.not_free (h : x.Holds a n t) : (x.lock n).isFree ≠ true := by
  rw [Ne, Lock.isFree_iff, h.holder]
  simp

/-- A new ticket that has come to hold its lock finds it tidy. -/
theorem tidy_of_entered (hx : x.Inv u) (h : (x.enter n a.id).Rely u a y)
    (hheld : (y.lock n).holder = some (x.lock n).next) : y.Tidy u n := by
  have hissued : (x.lock n).next < ((x.enter n a.id).lock n).next := by
    rw [enter_lock_self, Lock.enter_next]
    omega
  have hserves := h.tickets n _ hissued (if_pos ⟨rfl, rfl⟩)
  by_cases hat : ((x.enter n a.id).lock n).holder = some (x.lock n).next
  · have hfree : (x.lock n).isFree = true := by
      rw [enter_lock_self, Lock.enter_holder] at hat
      split at hat
      · assumption
      · have hmem : (x.lock n).next ∈ (x.lock n).tickets := by simp [Lock.tickets, hat]
        exact absurd ((hx.locked.valid n).issued _ hmem) (Nat.lt_irrefl _)
    have htidy : (x.enter n a.id).Tidy u n := by
      have := hx.tidy n hfree
      cases n <;> exact this
    exact htidy.protected h.always (hserves.1 hat).2
  · exact hserves.2 hat hheld

theorem owner_of_entered (h : (x.enter n a.id).Rely u a y) :
    y.owner n (x.lock n).next = a.id := by
  refine (h.always.owner n _ ?_).trans (if_pos ⟨rfl, rfl⟩)
  rw [enter_lock_self, Lock.enter_next]
  omega

theorem holds_of_entered (h : (x.enter n a.id).Rely u a y)
    (hheld : (y.lock n).holder = some (x.lock n).next) : y.Holds a n (x.lock n).next where
  holder := hheld
  issued := by
    have hnext := h.always.next n
    rw [enter_lock_self, Lock.enter_next] at hnext
    omega
  owner := owner_of_entered h

theorem Holds.enter {n' : LockName} (h : x.Holds a n t) (hne : n ≠ n') (me : Nat) :
    (x.enter n' me).Holds a n t where
  holder := by
    rw [enter_lock_of_ne hne]
    exact h.holder
  issued := by
    rw [enter_lock_of_ne hne]
    exact h.issued
  owner := (if_neg fun hsame => hne hsame.1).trans h.owner

theorem Holds.leave {n' : LockName} (h : x.Holds a n t) (hne : n ≠ n') (t' : Nat) :
    (x.leave n' t').Holds a n t where
  holder := (congrArg Lock.holder (if_neg hne)).trans h.holder
  issued := Nat.lt_of_lt_of_eq h.issued (congrArg Lock.next (if_neg hne)).symm
  owner := h.owner

/-- Who comes for a free lock has it. -/
theorem holds_enter (hfree : (x.lock n).isFree = true) :
    (x.enter n a.id).Holds a n (x.lock n).next where
  holder := by rw [enter_lock_self, Lock.enter_holder, if_pos hfree]
  issued := by
    rw [enter_lock_self, Lock.enter_next]
    omega
  owner := if_pos ⟨rfl, rfl⟩

theorem quiet_of_quiet_leave (hn : ∀ k, n = .send k → ¬ x.Concerns u k)
    (h : (x.leave n t).Quiet u) : x.Quiet u :=
  fun k hk => by
    rcases isFree_of_leave (h k hk) with hfree | ⟨heq, -⟩
    · exact hfree
    · exact absurd hk (hn k heq.symm)

end Scene

/-! ## Locks at moments -/

namespace HubMoment

variable {m : HubMoment s u a} {n : LockName} {t : Nat}

theorem scene_enter (n : LockName) (hvoiced : m.Voiced) :
    scene (m.set (Hub.enterLock n m.state).2) = m.scene.enter n a.id := by
  have hspoken : (World.move s a.id m.now (Hub.enterLock n m.state).2).spoken =
      World.spoken m.now := by
    funext c
    simp only [World.move, eq_iff_iff, or_iff_left_iff_imp]
    exact hvoiced c
  have hlock : ∀ n', (Hub.enterLock n m.state).2.lock n' =
      if n' = n then (m.state.lock n).enter.2 else m.state.lock n' := fun n' =>
    Hub.lock_setLock n n' _
  have howner : (World.move s a.id m.now (Hub.enterLock n m.state).2).owner =
      (m.scene.enter n a.id).owner := by
    funext n' t'
    simp only [World.move, hlock, Scene.enter]
    by_cases hn : n' = n
    · subst hn
      simp only [if_true, Lock.enter_next, true_and]
      congr 1
      exact propext ⟨fun h => Nat.le_antisymm (Nat.lt_succ_iff.mp h.2) h.1,
        fun h => ⟨Nat.le_of_eq h.symm, Nat.lt_succ_of_le (Nat.le_of_eq h)⟩⟩
    · have hnone : ¬ ((m.state.lock n').next ≤ t' ∧ t' < (m.state.lock n').next) :=
        fun h => Nat.lt_irrefl _ (Nat.lt_of_le_of_lt h.1 h.2)
      rw [if_neg hn]
      exact (if_neg hnone).trans (if_neg fun h => hn h.1).symm
  rw [scene_set, World.scene, howner, hspoken]
  simp only [World.move, Hub.enterLock, Hub.outline_setLock]
  rfl

theorem next_leaveLock (n : LockName) (t : Nat) (h : Hub) (n' : LockName) :
    ((Hub.leaveLock n t h).lock n').next = (h.lock n').next := by
  unfold Hub.leaveLock
  rw [Hub.lock_setLock]
  split
  · rename_i hn
    rw [Lock.leave_next, hn]
  · rfl

theorem scene_leave (n : LockName) (t : Nat) (hvoiced : m.Voiced) :
    scene (m.set (Hub.leaveLock n t m.state)) = m.scene.leave n t := by
  rw [scene_set_of_next (next_leaveLock n t m.state) hvoiced, Hub.leaveLock, Hub.outline_setLock]
  rfl

/-- A ticket that is given back after another change. -/
theorem scene_set_leave {h : Hub} (hnext : ∀ n', (m.state.lock n').next ≤ (h.lock n').next) :
    scene ((m.set h).set (Hub.leaveLock n t h)) = scene (m.set (Hub.leaveLock n t h)) := by
  exact scene_set_set hnext (fun n' => Nat.le_of_eq (next_leaveLock n t h n').symm) rfl

theorem sound_enter (hm : m.Sound) (hmay : Scene.MayEnter u a m.scene n) :
    (m.set (Hub.enterLock n m.state).2).Sound := by
  refine sound_set hm ?_ ?_
  · rw [scene_enter n (voiced_of_sound hm)]
    exact Scene.Inv.enter hm.inv hmay a.id
  · rw [scene_enter n (voiced_of_sound hm)]
    exact Scene.guarantee_enter hmay

theorem sound_leave (hm : m.Sound) (hown : m.scene.owner n t = a.id)
    (htidy : (m.scene.lock n).holder = some t → m.scene.Tidy u n)
    (hclosed : ∀ i, m.scene.Front i → m.scene.attached u = none → (m.scene.leave n t).Quiet u →
      m.scene.Closed u i)
    (hn : a.isCall = false → ∀ k, n ≠ .send k) :
    (m.set (Hub.leaveLock n t m.state)).Sound := by
  refine sound_set hm ?_ ?_
  · rw [scene_leave n t (voiced_of_sound hm)]
    exact Scene.Inv.leave hm.inv htidy hclosed
  · rw [scene_leave n t (voiced_of_sound hm)]
    exact Scene.guarantee_leave hown htidy hn

/-- A ticket that is given back in the end changes nothing for who relied on the scene before. -/
theorem sound_leave_later {m' : HubMoment s u a} (hm' : m'.Sound) (hlater : Later m m')
    (hnew : (m.scene.lock n).next ≤ t) (hown : m'.scene.owner n t = a.id)
    (htidy : (m'.scene.lock n).holder = some t → m'.scene.Tidy u n) (hn : ∀ k, n ≠ .send k) :
    (m'.set (Hub.leaveLock n t m'.state)).Sound ∧
      Later m (m'.set (Hub.leaveLock n t m'.state)) := by
  refine ⟨sound_leave hm' hown htidy (fun i hi hnone hquiet => ?_) fun _ => hn, ?_,
    hlater.origin⟩
  · exact Scene.Inv.closed hm'.inv i hi hnone
      (Scene.quiet_of_quiet_leave (fun k heq => absurd heq (hn k)) hquiet)
  · rw [scene_leave n t (voiced_of_sound hm')]
    exact hlater.rely.leave hnew htidy hn

/-- The same after a change of which only the outcome is known. -/
theorem sound_set_leave {h : Hub} {m₀ : HubMoment s u a}
    (hnext : ∀ n', (m.state.lock n').next ≤ (h.lock n').next)
    (hleave : ((m.set h).set (Hub.leaveLock n t h)).Sound ∧
      Later m₀ ((m.set h).set (Hub.leaveLock n t h))) :
    (m.set (Hub.leaveLock n t h)).Sound ∧ Later m₀ (m.set (Hub.leaveLock n t h)) := by
  have hscene : scene (m.set (Hub.leaveLock n t h)) =
      scene ((m.set h).set (Hub.leaveLock n t h)) := (scene_set_leave hnext).symm
  exact ⟨sound_of_scene (m := (m.set h).set (Hub.leaveLock n t h)) rfl rfl hscene hleave.1,
    Later.of_scene (m := (m.set h).set (Hub.leaveLock n t h)) rfl hscene hleave.2⟩

end HubMoment

/-! ## Running with a lock -/

open HubMoment

section WithLock

variable {n : LockName} {m : HubMoment s u a} {drop : World → Hub → Prop}
  {goal : HubMoment s u a → α → Prop}

theorem keeps_inLine {p : Nat → Program α}
    (h : (p (m.scene.lock n).next).Keeps
      (fun w h => drop w (Hub.leaveLock n (m.scene.lock n).next h))
      (m.set (Hub.enterLock n m.state).2)
      fun m' b => goal (m'.set (Hub.leaveLock n (m.scene.lock n).next m'.state)) b) :
    (Program.inLine n p).Keeps drop m goal := by
  intro _
  have hticket : (Hub.enterLock n m.state).1 = (m.scene.lock n).next := Lock.enter_ticket _
  change Keeps drop (ensuring (Hub.leaveLock n (Hub.enterLock n m.state).1)
    (p (Hub.enterLock n m.state).1)) _ goal
  rw [hticket]
  exact keeps_ensuring (h.mono fun m' b hgoal _ => hgoal)

/-- A program that holds a lock starts where it has the lock and finds it tidy. -/
theorem keeps_withLock {p : Program α} (hm : m.Sound) (hmay : Scene.MayEnter u a m.scene n)
    (hdrop : ∀ w, (w.scene s).Inv u → (m.scene.enter n a.id).Rely u a (w.scene s) →
      drop w (Hub.leaveLock n (m.scene.lock n).next w.hub))
    (hp : ∀ m' : HubMoment s u a, m'.Sound → (m.scene.enter n a.id).Rely u a m'.scene →
      m'.origin = m'.scene → m'.scene.Holds a n (m.scene.lock n).next → m'.scene.Tidy u n →
      p.Keeps (fun w h => drop w (Hub.leaveLock n (m.scene.lock n).next h)) m'
        fun m'' b => goal (m''.set (Hub.leaveLock n (m.scene.lock n).next m''.state)) b) :
    (Program.withLock n p).Keeps drop m goal := by
  have henter := scene_enter n (voiced_of_sound hm)
  refine keeps_inLine (keeps_bind.mpr (keeps_await (sound_enter hm hmay) ?_ ?_))
  · intro w hinv hrely
    rw [henter] at hrely
    exact hdrop w hinv hrely
  · intro m' hm' hrely horigin hready
    rw [henter] at hrely
    have hheld : (m'.scene.lock n).holder = some (m.scene.lock n).next :=
      (Lock.isHeldBy_iff _ _).mp hready
    exact hp m' hm' hrely horigin (Scene.holds_of_entered hrely hheld)
      (Scene.tidy_of_entered hm.inv hrely hheld)

end WithLock

/-! ## Neutral programs -/

/-- What never becomes false once it is true. -/
def Stable (P : Scene → Prop) : Prop := ∀ x y : Scene, x.Always y → P x → P y

theorem stable_true : Stable fun _ => True := fun _ _ _ h => h

theorem stable_client (c : Nat) : Stable fun x => c < x.clients :=
  fun _ _ hxy hc => Nat.lt_of_lt_of_le hc hxy.clients

/-- At this moment the program may run, and be dropped, as if it did nothing. -/
def NeutralAt (m : HubMoment s u a) (p : Program α) : Prop :=
  ∀ (drop : World → Hub → Prop) (goal : HubMoment s u a → α → Prop),
    (∀ w h, (Moment.set (Moment.resume w : HubMoment s u a) h).Sound →
      Later m (Moment.set (Moment.resume w) h) → drop w h) →
    (∀ m' b, m'.Sound → Later m m' → goal m' b) → p.Keeps drop m goal

/-- Where `P` holds the program may run, and be dropped, as if it did nothing. -/
def Neutral (s : Nat) (u : String) (a : Actor) (P : Scene → Prop) (p : Program α) : Prop :=
  ∀ m : HubMoment s u a, m.Sound → P m.scene → NeutralAt m p

variable {P Q : Scene → Prop} {p : Program α}

theorem NeutralAt.bind {m : HubMoment s u a} {f : α → Program β} (hp : NeutralAt m p)
    (hf : ∀ m' b, m'.Sound → Later m m' → NeutralAt m' (f b)) : NeutralAt m (p >>= f) := by
  intro drop goal hdrop hgoal
  refine keeps_bind.mpr (hp drop _ hdrop fun m' b hm' hlater => ?_)
  exact hf m' b hm' hlater drop goal (fun w h hw hl => hdrop w h hw (hlater.trans hl))
    (fun m'' b' hm'' hl => hgoal m'' b' hm'' (hlater.trans hl))

theorem neutral_pure (b : α) : Neutral s u a P (pure b : Program α) :=
  fun m hm _ _ _ _ hgoal => hgoal m b hm (.refl m)

theorem Neutral.bind {f : α → Program β} (hP : Stable P) (hp : Neutral s u a P p)
    (hf : ∀ b, Neutral s u a P (f b)) : Neutral s u a P (p >>= f) :=
  fun m hm hPm => (hp m hm hPm).bind fun m' b hm' hlater =>
    hf b m' hm' (hP _ _ hlater.rely.always hPm)

/-- What follows the state may depend on how it is at the moment. -/
theorem neutralAt_get {m : HubMoment s u a} {next : Hub → Program α} (hm : m.Sound)
    (h : NeutralAt (m.set m.state) (next m.state)) : NeutralAt m (get >>= next) := by
  intro drop goal hdrop hgoal _
  obtain ⟨hm', hlater⟩ := sound_silent (h := m.state) hm rfl
  exact h drop goal (fun w h hw hl => hdrop w h hw (hlater.trans hl))
    (fun m' b hm' hl => hgoal m' b hm' (hlater.trans hl))

/-- A change that the outline does not show. -/
theorem neutral_act {f : Hub → Hub} {next : Hub → Program α}
    (hf : ∀ h, (f h).outline s = h.outline s)
    (hnext : ∀ h, Neutral s u a (fun _ => True) (next h)) : Neutral s u a P (act f next) := by
  intro m hm _ drop goal hdrop hgoal _
  obtain ⟨hm', hlater⟩ := sound_silent (h := f m.state) hm (hf m.state)
  exact hnext m.state _ hm' trivial drop goal
    (fun w h hw hl => hdrop w h hw (hlater.trans hl))
    (fun m'' b hm'' hl => hgoal m'' b hm'' (hlater.trans hl))

theorem neutral_modifyGet {f : Hub → α × Hub} (hf : ∀ h, (f h).2.outline s = h.outline s) :
    Neutral s u a P (modifyGet f) :=
  neutral_act hf fun _ => neutral_pure _

theorem neutral_modify {f : Hub → Hub} (hf : ∀ h, (f h).outline s = h.outline s) :
    Neutral s u a P (modify f) :=
  neutral_act hf fun _ => neutral_pure _

theorem neutral_get : Neutral s u a P (get : Program Hub) :=
  neutral_act (fun _ => rfl) fun _ => neutral_pure _

theorem neutral_gets (f : Hub → α) : Neutral s u a P (gets f) :=
  neutral_act (fun _ => rfl) fun _ => neutral_pure _

theorem neutral_waitUntil (ready : Hub → Bool) : Neutral s u a P (waitUntil ready) := by
  intro m hm hPm drop goal hdrop hgoal
  refine ⟨hm, fun w hinv hrely => ⟨?_, fun _ => ?_⟩⟩
  · have hresume : (Moment.resume w : HubMoment s u a).Sound := sound_resume hinv
    obtain ⟨hsound, hlater⟩ := sound_silent (h := w.hub) hresume rfl
    exact hdrop w w.hub hsound ((later_resume hrely).trans hlater)
  · exact hgoal _ () (sound_resume hinv) (later_resume hrely)

theorem neutral_giveWay : Neutral s u a P (giveWay : Program Unit) := neutral_waitUntil _

theorem sound_spawned {m : HubMoment s u a} {job : Job} (hm : m.Sound)
    (hjob : m.scene.Starts job) : (m.spawned job).Sound where
  inv := hm.inv
  guarantee := hm.guarantee
  jobs job' hjob' := by
    rcases List.mem_append.mp hjob' with hold | hlast
    · exact hm.jobs job' hold
    · rw [List.mem_singleton.mp hlast]
      exact hjob

theorem neutral_start {job : Job} (hjob : ∀ x, P x → x.Starts job) :
    Neutral s u a P (Routine.start job : Program Unit) := fun m hm hPm _ _ _ hgoal =>
  hgoal (m.spawned job) () (sound_spawned hm (hjob _ hPm)) ⟨.refl u a _, .inl rfl⟩

theorem Neutral.ensuring {cleanup : Hub → Hub} (hp : Neutral s u a P p)
    (hf : ∀ h, (cleanup h).outline s = h.outline s) :
    Neutral s u a P (Routine.ensuring cleanup p) := by
  intro m hm hPm drop goal hdrop hgoal
  refine keeps_ensuring (hp m hm hPm _ _ ?_ ?_)
  · intro w h hw hlater
    exact hdrop w (cleanup h) (sound_congr (hf h).symm hw) (hlater.congr (hf h).symm)
  · intro m' b hm' hlater _
    obtain ⟨hm'', hlater'⟩ := sound_silent (h := cleanup m'.state) hm' (hf m'.state)
    exact hgoal _ b hm'' (hlater.trans hlater')

/-- A neutral program may be stopped where it waits. -/
theorem Neutral.untilStopped {stop : Hub → Bool} (hp : Neutral s u a P p) (hP : Stable P)
    (habandon : ∀ h, (p.abandon h).outline s = h.outline s) :
    Neutral s u a P (p.untilStopped stop) := by
  intro m hm hPm drop goal hdrop hgoal
  obtain ⟨hm', hlater⟩ := sound_silent (h := m.state) hm rfl
  obtain ⟨hm'', hlater'⟩ := sound_silent (h := p.abandon m.state) hm' (habandon m.state)
  refine keeps_untilStopped (fun w hinv => move_self hinv)
    (hgoal _ none hm'' (hlater.trans hlater'))
    (hp _ hm' (hP _ _ hlater.rely.always hPm) _ _ ?_ ?_)
  · intro w h hw hl
    exact ⟨hdrop w h hw (hlater.trans hl), hgoal _ none hw (hlater.trans hl)⟩
  · intro m₁ b hm₁ hl
    exact hgoal m₁ (some b) hm₁ (hlater.trans hl)

/-- A neutral program may run with a lock that is no send lock. -/
theorem Neutral.withLock {n : LockName} (hP : Stable P) (hn : ∀ k, n ≠ .send k)
    (hp : Neutral s u a P p) : Neutral s u a P (Program.withLock n p) := by
  intro m hm hPm drop goal hdrop hgoal
  have hmay : Scene.MayEnter u a m.scene n := by
    cases n with
    | send k => exact absurd rfl (hn k)
    | _ => trivial
  have henter : m.scene.Rely u a (m.scene.enter n a.id) := Scene.rely_enter hmay hn
  have hleave : ∀ m' : HubMoment s u a, m'.Sound → (m.scene.enter n a.id).Rely u a m'.scene →
      m.scene.Rely u a m'.origin →
      (m'.set (Hub.leaveLock n (m.scene.lock n).next m'.state)).Sound ∧
        Later m (m'.set (Hub.leaveLock n (m.scene.lock n).next m'.state)) := by
    intro m' hm' hrely horigin
    exact sound_leave_later hm' ⟨henter.trans hrely, .inr horigin⟩ (Nat.le_refl _)
      (Scene.owner_of_entered hrely) (Scene.tidy_of_entered hm.inv hrely) hn
  refine keeps_withLock hm hmay (fun w hinv hrely => ?_)
    fun m₁ hm₁ hrely horigin hholds htidy => ?_
  · obtain ⟨hsound, hlater⟩ := hleave (Moment.resume w) (sound_resume hinv) hrely
      (henter.trans hrely)
    exact hdrop w _ hsound hlater
  · have horigins : ∀ m' : HubMoment s u a, Later m₁ m' → m.scene.Rely u a m'.origin :=
      fun m' hlater => hlater.rely_origin (henter.trans hrely) horigin
    have hPm₁ : P m₁.scene := hP _ _ (henter.trans hrely).always hPm
    refine hp m₁ hm₁ hPm₁ _ _ (fun w' h hw hlater => ?_) fun m' b hm' hlater => ?_
    · obtain ⟨hsound, hlater'⟩ := sound_set_leave (m := Moment.resume w') (h := h)
        (fun n' => (Scene.Guarantee.always hw.guarantee).next n')
        (hleave _ hw (hrely.trans hlater.rely) (horigins _ hlater))
      exact hdrop w' _ hsound hlater'
    · obtain ⟨hsound, hlater'⟩ := hleave m' hm' (hrely.trans hlater.rely) (horigins _ hlater)
      exact hgoal _ b hsound hlater'

end LanguageHub
