import LanguageHub.Proofs.Manners.Habits

/-!
# Orderly programs

A task may also do what depends on the moment: it speaks on a client that it has found started in
the same turn, it drops a client unless it has started a session in this turn, and it starts jobs.
A program is orderly at a moment when it keeps the pact from there on and leaves alone what the
task itself has opened.

Laws: programs that keep to the custom are orderly, and what orderly programs are made of is
orderly in every part.
-/

namespace LanguageHub.Manners

open Routine Pact

variable {me c : Nat} {α β : Type} {w : World} {h : Hub} {m m' m'' : Moment (pact me)}
  {p : Program α} {Q : α → World → Prop} {R : β → World → Prop}

/-- What an orderly program has come to. -/
structure Continues (m m' : Moment (pact me)) : Prop where
  sound : m'.Sound
  hears : Hears me m.now m'.now
  calm : Calm m → Calm m'

theorem continues_same (hm : m.Sound) : Continues m m := ⟨hm, .refl _, id⟩

theorem Continues.trans (first : Continues m m') (second : Continues m' m'') :
    Continues m m'' :=
  ⟨second.sound, first.hears.trans second.hears, fun h => second.calm (first.calm h)⟩

theorem continues_set (hm : m.Sound) (hminds : Minds me m.now h)
    (hspeakers : Calm m ∨ ∀ s, h.speaker s = (World.hub m.now).speaker s) :
    Continues m (m.set h) where
  sound := hminds.sound hm hspeakers
  hears := hminds.hears hm.inv
  calm := hminds.calm hm

theorem continues_quiet (hm : m.Sound) (hquiet : World.Quiet me m.now h) :
    Continues m (m.set h) := continues_set hm (hquiet.minds hm.inv) (.inr hquiet.speaker)

theorem set_same (hm : m.Sound) : m.set m.state = m := by
  obtain ⟨start, now, jobs⟩ := m
  exact congrArg (fun now => (⟨start, now, jobs⟩ : Moment (pact me)))
    (World.Inv.move_same hm.inv me)

def IsOrderly (p : Program α) (m : Moment (pact me)) : Prop :=
  m.Sound → p.Keeps (fun _ _ => True) m fun m' _ => Continues m m'

theorem orderly_of_obeys (h : p.Obeys (custom me) m.now) : IsOrderly p m := fun hm =>
  (keeps_of_obeys Calm (fun m s hm (hmay : World.May me m.now s) => hmay.1.calm hm) calm_resume h
    hm).mono fun _ _ hend => ⟨hend.1, hend.2.1, hend.2.2⟩

theorem orderly_of_abides (h : p.Abides (custom me) m.now) : IsOrderly p m := fun hm =>
  orderly_of_obeys (h.obeys hm.inv) hm

theorem orderly_pure (a : α) : IsOrderly (pure a) m := continues_same

theorem IsOrderly.bind {f : α → Program β} (h : IsOrderly p m)
    (hf : ∀ a m', Continues m m' → IsOrderly (f a) m') : IsOrderly (p >>= f) m := fun hm =>
  keeps_bind.mpr ((h hm).mono fun m' a hm' =>
    (hf a m' hm' hm'.sound).mono fun _ _ hend => hm'.trans hend)

/-! ## Steps -/

theorem orderly_get {next : Hub → Program α} (h : IsOrderly (next m.state) m) :
    IsOrderly (get >>= next) m := fun hm _ => by
  change Keeps _ (next m.state) (m.set m.state) _
  rw [set_same hm]
  exact h hm

theorem orderly_gets {f : Hub → β} {next : β → Program α} (h : IsOrderly (next (f m.state)) m) :
    IsOrderly (gets f >>= next) m := by
  change IsOrderly (get >>= fun s => next (f s)) m
  exact orderly_get h

theorem orderly_modifyGet {f : Hub → β × Hub} {next : β → Program α}
    (h : m.Sound → Continues m (m.set (f m.state).2))
    (hnext : IsOrderly (next (f m.state).1) (m.set (f m.state).2)) :
    IsOrderly (modifyGet f >>= next) m := fun hm _ =>
  (hnext (h hm).sound).mono fun _ _ hend => (h hm).trans hend

theorem orderly_modify {f : Hub → Hub} {next : Unit → Program α}
    (h : m.Sound → Continues m (m.set (f m.state)))
    (hnext : Continues m (m.set (f m.state)) → IsOrderly (next ()) (m.set (f m.state))) :
    IsOrderly (modify f >>= next) m := fun hm _ =>
  (hnext (h hm) (h hm).sound).mono fun _ _ hend => (h hm).trans hend

theorem orderly_quiet {f : Hub → Hub} (h : ∀ w : World, w.Inv → w.Quiet me (f w.hub)) :
    IsOrderly (modify f) m := orderly_of_abides (abides_quiet fun w hw _ => h w hw)

theorem orderly_quietGet {f : Hub → β × Hub} (h : ∀ w : World, w.Inv → w.Quiet me (f w.hub).2) :
    IsOrderly (modifyGet f) m := fun hm _ => continues_quiet hm (h m.now hm.inv)

/-- A job of one of the sessions may be started at any time. -/
theorem orderly_start (job : Job) (hjob : job.IsOwn) : IsOrderly (start job) m := fun hm =>
  ⟨⟨hm.inv, hm.guarantee, fun other hother => by
    rcases List.mem_append.mp hother with hold | hnew
    · exact hm.jobs other hold
    · rw [List.mem_singleton.mp hnew]
      exact hjob⟩, .refl _, id⟩

theorem orderly_waitUntil {ready : Hub → Bool} {next : Unit → Program α}
    (h : ∀ w, World.Inv w → ready w.hub = true →
      IsOrderly (next ()) (Moment.resume w : Moment (pact me))) :
    IsOrderly (waitUntil ready >>= next) m := fun hm =>
  ⟨hm, fun w hw hrely => ⟨trivial, fun hready =>
    (h w hw hready (sound_resume hw)).mono fun _ _ hend =>
      ⟨hend.sound, (hears_of_rely hrely).trans hend.hears, fun _ => hend.calm (calm_resume w)⟩⟩⟩

/-! ## Cleaning up -/

theorem IsOrderly.ensuring {cleanup : Hub → Hub} (h : IsOrderly p m)
    (hclean : ∀ w, World.Inv w → Hears me m.now w → w.Quiet me (cleanup w.hub)) :
    IsOrderly (p.ensuring cleanup) m := fun hm =>
  keeps_ensuring ((h hm).mono fun _ _ hend _ =>
    hend.trans (continues_quiet hend.sound (hclean _ hend.sound.inv hend.hears)))

theorem continues_enter (hm : m.Sound) (n : LockName) :
    Continues m (m.set (Hub.enterLock n m.state).2) :=
  continues_quiet hm (.enterLock (World.Inv.ordered hm.inv))

/-- The ticket that a task has taken is its own. -/
theorem quiet_leave {n : LockName} (hw : w.Inv)
    (hgrows : Grows (m.set (Hub.enterLock n m.state).2).now w) :
    w.Quiet me (Hub.leaveLock n (Hub.enterLock n m.state).1 w.hub) := by
  have hticket : (Hub.enterLock n m.state).1 = (m.state.lock n).next := Lock.enter_ticket _
  rw [hticket]
  refine .leaveLock hw.ordered fun c hc => ?_
  subst hc
  exact owner_entered hgrows

theorem orderly_inLine {n : LockName} {p : Nat → Program α}
    (hp : IsOrderly (p (Hub.enterLock n m.state).1) (m.set (Hub.enterLock n m.state).2)) :
    IsOrderly (Program.inLine n p) m :=
  orderly_modifyGet (fun hm => continues_enter hm n)
    (hp.ensuring fun _ hw hears => quiet_leave hw hears.grows)

theorem orderly_withLock {n : LockName}
    (hp : ∀ w : World, IsOrderly p (Moment.resume w : Moment (pact me))) :
    IsOrderly (Program.withLock n p) m :=
  orderly_inLine (orderly_waitUntil fun w _ _ => hp w)

/-! ## Using clients -/

theorem orderly_holding
    (hp : IsOrderly p (m.set (m.state.onClient c Client.hold))) :
    IsOrderly (Client.holding c p) m :=
  orderly_modify (fun hm => continues_quiet hm quiet_hold) fun _ =>
    hp.ensuring fun _ _ _ => quiet_release

/-! ## Before a session is started -/

/-- Before a session is started the program comes to worlds of this kind. -/
def Leads (p : Program α) (m : Moment (pact me)) (Q : α → World → Prop) : Prop :=
  m.Sound → Calm m → p.Keeps (fun _ _ => True) m fun m' a => m'.Sound ∧ Calm m' ∧ Q a m'.now

theorem Leads.mono {Q' : α → World → Prop} (h : Leads p m Q) (hQ : ∀ a w, Q a w → Q' a w) :
    Leads p m Q' := fun hm hcalm =>
  (h hm hcalm).mono fun _ _ hend => ⟨hend.1, hend.2.1, hQ _ _ hend.2.2⟩

theorem Leads.bind {f : α → Program β} (h : Leads p m Q)
    (hf : ∀ a (m' : Moment (pact me)), Q a m'.now → Leads (f a) m' R) :
    Leads (p >>= f) m R := fun hm hcalm =>
  keeps_bind.mpr ((h hm hcalm).mono fun m' a hend => hf a m' hend.2.2 hend.1 hend.2.1)

theorem leads_pure {a : α} (h : Q a m.now) : Leads (pure a) m Q := fun hm hcalm => ⟨hm, hcalm, h⟩

theorem IsOrderly.leads (h : IsOrderly p m) : Leads p m fun _ w => Hears me m.now w :=
  fun hm hcalm => (h hm).mono fun _ _ hend => ⟨hend.sound, hend.calm hcalm, hend.hears⟩

theorem leads_get {next : Hub → Program α} (h : Leads (next m.state) m Q) :
    Leads (get >>= next) m Q := fun hm hcalm _ => by
  change Keeps _ (next m.state) (m.set m.state) _
  rw [set_same hm]
  exact h hm hcalm

theorem leads_gets {f : Hub → β} {next : β → Program α} (h : Leads (next (f m.state)) m Q) :
    Leads (gets f >>= next) m Q := by
  change Leads (get >>= fun s => next (f s)) m Q
  exact leads_get h

theorem leads_waitUntil {ready : Hub → Bool} {next : Unit → Program α}
    (h : ∀ w : World, w.Inv → Hears me m.now w →
      Leads (next ()) (Moment.resume w : Moment (pact me)) Q) :
    Leads (waitUntil ready >>= next) m Q := fun hm _ =>
  ⟨hm, fun w hw hrely => ⟨trivial, fun _ =>
    h w hw (hears_of_rely hrely) (sound_resume hw) (calm_resume w)⟩⟩

/-- A session is started at most in the end. -/
def Behaves (p : Program α) (m : Moment (pact me)) : Prop :=
  m.Sound → Calm m → p.Keeps (fun _ _ => True) m fun m' _ => m'.Sound

theorem IsOrderly.behaves (h : IsOrderly p m) : Behaves p m := fun hm _ =>
  (h hm).mono fun _ _ hend => hend.sound

theorem IsOrderly.behaves_then {f : α → β} (h : IsOrderly p m) :
    Behaves (p >>= fun a => pure (f a)) m :=
  (h.bind fun _ _ _ => orderly_pure _).behaves

theorem Leads.behaves {f : α → Program β} (h : Leads p m Q)
    (hf : ∀ a (m' : Moment (pact me)), Q a m'.now → Behaves (f a) m') : Behaves (p >>= f) m :=
  fun hm hcalm => keeps_bind.mpr ((h hm hcalm).mono fun m' a hend =>
    hf a m' hend.2.2 hend.1 hend.2.1)

theorem Behaves.orderly {f : α → Program β} (h : Behaves p m)
    (hf : ∀ a (m' : Moment (pact me)), IsOrderly (f a) m') : Behaves (p >>= f) m :=
  fun hm hcalm => keeps_bind.mpr ((h hm hcalm).mono fun m' a hsound =>
    (hf a m' hsound).mono fun _ _ hend => hend.sound)

theorem behaves_get {next : Hub → Program α} (h : Behaves (next m.state) m) :
    Behaves (get >>= next) m := fun hm hcalm _ => by
  change Keeps _ (next m.state) (m.set m.state) _
  rw [set_same hm]
  exact h hm hcalm

theorem Behaves.ensuring {cleanup : Hub → Hub} (h : Behaves p m)
    (hclean : ∀ w, World.Inv w → w.Quiet me (cleanup w.hub)) : Behaves (p.ensuring cleanup) m :=
  fun hm hcalm => keeps_ensuring ((h hm hcalm).mono fun _ _ hsound _ =>
    (continues_quiet hsound (hclean _ hsound.inv)).sound)

theorem behaves_withLock {n : LockName} (hn : ∀ c, n ≠ .writer c)
    (hp : ∀ w : World, Behaves p (Moment.resume w : Moment (pact me))) :
    Behaves (Program.withLock n p) m :=
  (orderly_quietGet fun _ hw => .enterLock hw.ordered).leads.behaves fun _ _ _ =>
    Behaves.ensuring (fun hm _ => ⟨hm, fun w hw _ => ⟨trivial, fun _ =>
        hp w (sound_resume hw) (calm_resume w)⟩⟩)
      fun _ hw => .leaveLock hw.ordered fun c hc => absurd hc (hn c)

end LanguageHub.Manners
