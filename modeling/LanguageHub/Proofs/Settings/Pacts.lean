import LanguageHub.Proofs.Settings.Muting
import LanguageHub.Proofs.Settings.World

/-!
# What tasks promise about settings

A call that brings a session to run on a client tells its server the settings before it returns.
Besides, all tasks keep their manners. Each half of this is shown for a program on its own.

Laws: a program that keeps each half of the pact keeps the whole.
-/

namespace LanguageHub.Briefing

open Routine Pact

variable {calls : Nat → Prop} {me you c s x : Nat} {α β : Type} {w w' w'' : World} {h : Hub}

/-- Sessions are brought to run by calls only, each in its own name. -/
structure Promise (calls : Nat → Prop) (me : Nat) (w w' : World) : Prop where
  later : Later w w'
  began : ∀ s c id x, w'.began s c id x → w.began s c id x ∨ id = me ∧ calls me

/-- Nobody else brings a session to run in this name. -/
structure Trust (me : Nat) (w w' : World) : Prop where
  later : Later w w'
  began : ∀ s c x, w'.began s c me x → w.began s c me x

theorem Trust.refl (w : World) : Trust me w w := ⟨.refl w, fun _ _ _ => id⟩

theorem Trust.trans (first : Trust me w w') (second : Trust me w' w'') : Trust me w w'' :=
  ⟨first.later.trans second.later, fun s c x h => first.began s c x (second.began s c x h)⟩

theorem Promise.refl (w : World) : Promise calls me w w := ⟨.refl w, fun _ _ _ _ => .inl⟩

theorem Promise.trans (first : Promise calls me w w') (second : Promise calls me w' w'') :
    Promise calls me w w'' :=
  ⟨first.later.trans second.later, fun s c id x h =>
    (second.began s c id x h).elim (first.began s c id x) .inr⟩

theorem Promise.trust (h : Promise calls you w w') (hne : me ≠ you) : Trust me w w' :=
  ⟨h.later, fun s c x hbegan => (h.began s c me x hbegan).resolve_right fun hmine => hne hmine.1⟩

theorem World.Clean.trust (hclean : w.Clean me) (hw : w.Records) (h : Trust me w w') :
    w'.Clean me := fun s c x hbegan =>
  have hbefore := h.began s c x hbegan
  h.later.briefed (hw.known s c me x hbefore) (hclean s c x hbefore)

abbrev company (calls : Nat → Prop) : Company Job Hub where
  World := World
  state := World.hub
  move := World.move
  state_move _ _ _ := rfl
  allows _ _ _ := True
  inv w := w.manners.Inv ∧ w.Records
  guarantee me w w' := Manners.Guarantee me w.manners w'.manners ∧ Promise calls me w w'
  rely me w w' := Manners.Rely me w.manners w'.manners ∧ Trust me w w'
  starts _ job := job.IsOwn
  rely_refl _ w := ⟨.refl _, .refl w⟩
  rely_trans first second := ⟨first.1.trans second.1, first.2.trans second.2⟩
  rely_of_guarantee hne _ hw hw' h :=
    ⟨Manners.company.rely_of_guarantee hne trivial hw.1 hw'.1 h.1, h.2.trust hne⟩

/-- The half of the pact that has to do with settings. A task that goes on finds good manners. -/
abbrev pact (calls : Nat → Prop) (me : Nat) : Pact Job Hub where
  World := World
  state := World.hub
  move := World.move me
  state_move _ _ := rfl
  allows _ _ _ := True
  inv := World.Records
  guarantee := Promise calls me
  rely w w' := w'.manners.Inv ∧ Manners.Rely me w.manners w'.manners ∧ Trust me w w'
  starts _ _ := True

/-! ## The whole pact -/

theorem sound_join {m : Moment ((company calls).pact me)}
    (hmanners : (⟨World.manners m.start, World.manners m.now, m.jobs⟩ :
      Moment (Manners.pact me)).Sound)
    (hsettings : (⟨m.start, m.now, m.jobs⟩ : Moment (pact calls me)).Sound) : m.Sound :=
  ⟨⟨hmanners.inv, hsettings.inv⟩, ⟨hmanners.guarantee, hsettings.guarantee⟩, hmanners.jobs⟩

theorem keeps_join {p : Program α} {start now : World} {jobs : List Job}
    {goal : Moment (Manners.pact me) → α → Prop} {goal' : Moment (pact calls me) → α → Prop}
    (hmanners : p.Keeps (P := Manners.pact me) (fun _ _ => True)
      ⟨start.manners, now.manners, jobs⟩ goal)
    (hsettings : p.Keeps (P := pact calls me) (fun _ _ => True) ⟨start, now, jobs⟩ goal') :
    p.Keeps (P := (company calls).pact me) (fun _ _ => True) ⟨start, now, jobs⟩ fun m a =>
      goal ⟨m.start.manners, m.now.manners, m.jobs⟩ a ∧ goal' ⟨m.start, m.now, m.jobs⟩ a := by
  induction p generalizing start now jobs with
  | done a => exact ⟨hmanners, hsettings⟩
  | act update next ih => exact fun _ => ih _ (hmanners trivial) (hsettings trivial)
  | spawn job next ih => exact ih hmanners hsettings
  | await ready abandon next ih =>
    obtain ⟨hsound, hmanners⟩ := hmanners
    obtain ⟨hsound', hsettings⟩ := hsettings
    refine ⟨sound_join hsound hsound', fun w hw hrely => ⟨trivial, fun hready => ?_⟩⟩
    exact ih ((hmanners w.manners hw.1 hrely.1).2 hready)
      ((hsettings w hw.2 ⟨hw.1, hrely⟩).2 hready)

/-! ## Going on without bringing a session to run -/

variable {m m' m'' : Moment (pact calls me)} {p : Program α} {Q Q' : α → World → Prop}
  {R : β → World → Prop}

/-- The task has kept the pact and brought no session to run. -/
structure Passes (m m' : Moment (pact calls me)) : Prop where
  sound : m'.Sound
  trust : Trust me m.now m'.now

theorem Passes.later (h : Passes m m') : Later m.now m'.now := h.trust.later

theorem passes_same (hm : m.Sound) : Passes m m := ⟨hm, .refl _⟩

theorem Passes.trans (first : Passes m m') (second : Passes m' m'') : Passes m m'' :=
  ⟨second.sound, first.trust.trans second.trust⟩

theorem sound_resume (hw : w.Records) : (Moment.resume w : Moment (pact calls me)).Sound :=
  ⟨hw, .refl w, nofun⟩

theorem passes_move (hm : m.Sound) (hgo : m.state.Proceeds h) (hsaid : Says m.now h)
    (hruns : ∀ s c, h.Runs s c → m.state.Runs s c) : Passes m (m.set h) := by
  have hw : World.Records m.now := hm.inv
  have hbegan : ∀ s c id x, (World.move me m.now h).began s c id x →
      World.began m.now s c id x := fun s c _ _ hbegan =>
    hbegan.resolve_right fun hnew => hnew.2.1 (hruns s c hnew.1)
  have hlater : Later m.now (World.move me m.now h) := later_move hw hgo hsaid
  exact ⟨⟨records_move hw hgo fun s c hr => hw.fits s c (hruns s c hr),
    hm.guarantee.trans ⟨hlater, fun s c id x hnow => .inl (hbegan s c id x hnow)⟩,
    fun _ _ => trivial⟩, hlater, fun s c x => hbegan s c me x⟩

theorem passes_mutes (hm : m.Sound) (hmutes : m.state.Mutes h) : Passes m (m.set h) :=
  passes_move hm hmutes.toProceeds (fun _ hc => .inl (hmutes.told_client hc))
    fun _ _ => hmutes.runs

/-- Without bringing a session to run the program comes to worlds of this kind. -/
def Goes (p : Program α) (m : Moment (pact calls me)) (Q : α → World → Prop) : Prop :=
  m.Sound → p.Keeps (fun _ _ => True) m fun m' a => Passes m m' ∧ Q a m'.now

theorem goes_of_sound (h : m.Sound → Goes p m Q) : Goes p m Q := fun hm => h hm hm

theorem goes_of_muting (hp : Muting p) : Goes p m fun _ _ => True := by
  have hkeeps : ∀ m' : Moment (pact calls me), Passes m m' →
      p.Keeps (fun _ _ => True) m' fun m' _ => Passes m m' := by
    intro m' hpasses
    induction p generalizing m' with
    | done a => exact hpasses
    | act update next ih =>
      exact fun _ => ih _ (hp.2 _) _ (hpasses.trans (passes_mutes hpasses.sound (hp.1 _)))
    | spawn job next ih =>
      exact ih hp.2 _
        ⟨⟨hpasses.sound.inv, hpasses.sound.guarantee, fun _ _ => trivial⟩, hpasses.trust⟩
    | await ready abandon next ih =>
      exact ⟨hpasses.sound, fun w hw hrely => ⟨trivial, fun _ =>
        ih hp.2 _ ⟨sound_resume hw, hpasses.trust.trans hrely.2.2⟩⟩⟩
  exact fun hm => (hkeeps m (passes_same hm)).mono fun _ _ h => ⟨h, trivial⟩

theorem goes_pure {a : α} (h : Q a m.now) : Goes (pure a) m Q := fun hm => ⟨passes_same hm, h⟩

theorem Goes.mono (h : Goes p m Q) (hQ : ∀ a m', Passes m m' → Q a m'.now → Q' a m'.now) :
    Goes p m Q' := fun hm =>
  (h hm).mono fun m' a hend => ⟨hend.1, hQ a m' hend.1 hend.2⟩

theorem Goes.bind {f : α → Program β} (h : Goes p m Q)
    (hf : ∀ a m', Passes m m' → Q a m'.now → Goes (f a) m' R) : Goes (p >>= f) m R := fun hm =>
  keeps_bind.mpr ((h hm).mono fun m' a hend =>
    (hf a m' hend.1 hend.2 hend.1.sound).mono fun _ _ hend' =>
      ⟨hend.1.trans hend'.1, hend'.2⟩)

/-- What lasts is not undone by cleaning up. -/
theorem Goes.ensuring {cleanup : Hub → Hub} (h : Goes p m Q)
    (hclean : ∀ h : Hub, h.Mutes (cleanup h))
    (hQ : ∀ a (m' m'' : Moment (pact calls me)), Passes m m' → Passes m' m'' → Q a m'.now →
      Q a m''.now) : Goes (p.ensuring cleanup) m Q := fun hm =>
  keeps_ensuring ((h hm).mono fun m' a hend _ =>
    have hpasses := passes_mutes hend.1.sound (hclean m'.state)
    ⟨hend.1.trans hpasses, hQ a m' _ hend.1 hpasses hend.2⟩)

theorem goes_modifyGet {f : Hub → β × Hub} {next : β → Program α}
    (h : m.Sound → Passes m (m.set (f m.state).2))
    (hnext : Goes (next (f m.state).1) (m.set (f m.state).2) Q) :
    Goes (modifyGet f >>= next) m Q := fun hm _ =>
  (hnext (h hm).sound).mono fun _ _ hend => ⟨(h hm).trans hend.1, hend.2⟩

theorem goes_modify {f : Hub → Hub} {next : Unit → Program α} (hf : ∀ h : Hub, h.Mutes (f h))
    (hnext : Passes m (m.set (f m.state)) → Goes (next ()) (m.set (f m.state)) Q) :
    Goes (modify f >>= next) m Q := fun hm _ =>
  have hpasses := passes_mutes hm (hf m.state)
  (hnext hpasses hpasses.sound).mono fun _ _ hend => ⟨hpasses.trans hend.1, hend.2⟩

theorem goes_get {next : Hub → Program α}
    (h : ∀ m' : Moment (pact calls me), Passes m m' → m'.state = m.state →
      Goes (next m'.state) m' Q) : Goes (get >>= next) m Q := fun hm _ =>
  have hpasses := passes_mutes hm (.refl m.state)
  (h _ hpasses rfl hpasses.sound).mono fun _ _ hend => ⟨hpasses.trans hend.1, hend.2⟩

theorem goes_waitUntil {ready : Hub → Bool} {next : Unit → Program α}
    (h : ∀ w : World, w.Records → w.manners.Inv →
      Manners.Rely me (World.manners m.now) w.manners → Trust me m.now w → ready w.hub = true →
        Goes (next ()) (Moment.resume w : Moment (pact calls me)) Q) :
    Goes (waitUntil ready >>= next) m Q := fun hm =>
  ⟨hm, fun w hw ⟨hinv, hrely, htrust⟩ => ⟨trivial, fun hready =>
    (h w hw hinv hrely htrust hready (sound_resume hw)).mono fun _ _ hend =>
      ⟨⟨hend.1.sound, htrust.trans hend.1.trust⟩, hend.2⟩⟩⟩

/-! ## Bringing sessions to run -/

/-- By the end the task has told every client the settings on which it brought a session to run. -/
def Brings (p : Program α) (m : Moment (pact calls me)) : Prop :=
  m.Sound → World.Clean m.now me → p.Keeps (fun _ _ => True) m fun m' _ =>
    m'.Sound ∧ World.Clean m'.now me

theorem Goes.then {f : α → Program β} (h : Goes p m Q)
    (hf : ∀ a m', Passes m m' → Q a m'.now → Brings (f a) m') : Brings (p >>= f) m :=
  fun hm hclean => keeps_bind.mpr ((h hm).mono fun m' a hend =>
    hf a m' hend.1 hend.2 hend.1.sound (hclean.trust hm.inv hend.1.trust))

theorem Goes.brings (h : Goes p m Q) : Brings p m := fun hm hclean =>
  (h hm).mono fun _ _ hend => ⟨hend.1.sound, hclean.trust hm.inv hend.1.trust⟩

theorem brings_of_muting (hp : Muting p) : Brings p m := (goes_of_muting hp).brings

theorem Brings.bind {f : α → Program β} (h : Brings p m)
    (hf : ∀ a (m' : Moment (pact calls me)), Brings (f a) m') : Brings (p >>= f) m :=
  fun hm hclean => keeps_bind.mpr ((h hm hclean).mono fun m' a hend =>
    hf a m' hend.1 hend.2)

theorem Brings.ensuring {cleanup : Hub → Hub} (h : Brings p m)
    (hclean : ∀ h : Hub, h.Mutes (cleanup h)) : Brings (p.ensuring cleanup) m := fun hm hbefore =>
  keeps_ensuring ((h hm hbefore).mono fun m' _ hend _ =>
    have hpasses := passes_mutes hend.1 (hclean m'.state)
    ⟨hpasses.sound, World.Clean.trust hend.2 hend.1.inv hpasses.trust⟩)

theorem brings_get {next : Hub → Program α}
    (h : ∀ m' : Moment (pact calls me), Passes m m' → m'.state = m.state →
      Brings (next m'.state) m') : Brings (get >>= next) m := fun hm hclean _ =>
  have hpasses := passes_mutes hm (.refl m.state)
  h _ hpasses rfl hpasses.sound (hclean.trust hm.inv hpasses.trust)

theorem brings_withLock {n : LockName}
    (hp : ∀ m' : Moment (pact calls me), Later m.now m'.now → Brings p m') :
    Brings (Program.withLock n p) m :=
  (goes_of_muting (muting_modifyGet fun _ => .enterLock)).then fun _ _ hentered _ =>
    .ensuring ((goes_of_muting (muting_waitUntil _)).then fun _ _ hheld _ =>
      hp _ (hentered.later.trans hheld.later)) fun _ => .leaveLock

end LanguageHub.Briefing
