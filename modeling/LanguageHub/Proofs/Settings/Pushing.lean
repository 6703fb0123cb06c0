import LanguageHub.Proofs.Client.Writing
import LanguageHub.Proofs.Settings.Pacts

/-!
# Pushing settings

Settings are read before the task comes for the client's queue, and who came later writes later. So
when it is the task's turn the settings that it tells are at least as recent as all that were told
before, and whoever still stands in the queue has read settings that are as recent as these.

Laws: a place in the queue is kept while its task waits.
-/

namespace LanguageHub.Briefing

open Routine Pact

variable {calls : Nat → Prop} {me c d s t x : Nat} {v : Json} {w w' : World} {h : Hub}
  {message : Message} {m m' : Moment (pact calls me)}

/-! ## Standing in the queue -/

namespace World

/-- The task stands in the client's queue since this date, with settings that were right then. -/
structure Stands (w : World) (me c t x : Nat) (v : Json) : Prop where
  known : c < w.hub.clients.length
  mem : t ∈ (w.hub.queue c).tickets
  issued : t < (w.hub.queue c).next
  owner : w.manners.owner c t = me
  dated : w.dated c t = x
  past : w.past x (w.hub.client c).definition = some v

/-- Whoever stands in the queue came later. -/
def IsFirst (w : World) (c t : Nat) : Prop := ∀ t' ∈ (w.hub.queue c).tickets, t ≤ t'

end World

theorem World.Stands.later (h : w.Stands me c t x v) (hw : w.Records)
    (hrely : Manners.Rely me w.manners w'.manners) (hlater : Later w w') :
    w'.Stands me c t x v where
  known := Nat.lt_of_lt_of_le h.known hlater.clients
  mem := hrely.stays c t h.mem h.issued h.owner
  issued := Nat.lt_of_lt_of_le h.issued (hlater.next c)
  owner := (hrely.owner c t h.issued).trans h.owner
  dated := (hlater.dated c t h.issued).trans h.dated
  past := by
    have hx : x ≤ w.date := h.dated ▸ hw.dated c t h.issued
    rw [hlater.definition c h.known, hlater.past x hx]
    exact h.past

theorem World.IsFirst.later (h : w.IsFirst c t) (ht : t < (w.hub.queue c).next)
    (hrely : Manners.Rely me w.manners w'.manners) : w'.IsFirst c t := fun t' ht' =>
  (hrely.entered c t' ht').elim (h t') fun hnew => Nat.le_of_lt (Nat.lt_of_lt_of_le ht hnew)

/-! ## Writing -/

theorem told?_onLink {f : Link → Link} (hw : w.manners.Inv) (hc : c < w.hub.clients.length) :
    (w.hub.onLink (w.hub.client c).link f).told? c = (f (w.hub.linkOf c)).told? := by
  change Link.told? ((w.hub.onLink _ f).link (w.hub.client c).link) = _
  rw [Hub.link_onLink, if_pos ⟨rfl, hw.linked c hc⟩]
  rfl

theorem told?_onLink_of_ne {f : Link → Link} (hw : w.manners.Inv)
    (hc : c < w.hub.clients.length) (hd : d < w.hub.clients.length) (hne : d ≠ c) :
    (w.hub.onLink (w.hub.client c).link f).told? d = w.hub.told? d := by
  change Link.told? ((w.hub.onLink _ f).link (w.hub.client d).link) = _
  rw [Hub.link_onLink, if_neg fun heq => hne (hw.apart c hc d hd heq.1).symm]
  rfl

/-- The hub once the message was begun. -/
abbrev written (h : Hub) (c : Nat) (message : Message) (size : Nat) : Hub :=
  (h.fromLink (h.client c).link (·.write message size 0)).2

theorem passes_written (hm : m.Sound) (hinv : (World.manners m.now).Inv)
    (hstands : World.Stands m.now me c t x v) (hsettings : message.settings? = some v)
    (hdue : StreamFault.due? (m.state.linkOf c).writeFault = none) (size : Nat) :
    (written m.state c message size).told? c = some v ∧
      Passes m (m.set (written m.state c message size)) := by
  have htold : (written m.state c message size).told? c = some v :=
    (told?_onLink (w := m.now) hinv hstands.known).trans
      (Link.told?_write_of_settings _ hsettings hdue)
  refine ⟨htold, passes_move hm (.write message size 0) (fun d hd => ?_) fun _ _ => id⟩
  by_cases hcd : d = c
  · subst hcd
    exact .inr ⟨t, v, hstands.mem, hstands.issued, hstands.dated.symm ▸ hstands.past, htold⟩
  · exact .inl (told?_onLink_of_ne (w := m.now) hinv hstands.known hd hcd)

theorem heard_written (hm : m.Sound) (hinv : (World.manners m.now).Inv)
    (hstands : World.Stands m.now me c t x v) (hfirst : World.IsFirst m.now c t)
    (hsettings : message.settings? = some v)
    (hdue : StreamFault.due? (m.state.linkOf c).writeFault = none) (size : Nat) :
    World.Heard (m.set (written m.state c message size)).now c x := by
  have hw : World.Records m.now := hm.inv
  obtain ⟨htold, hpasses⟩ := passes_written hm hinv hstands hsettings hdue size
  have hx : x ≤ World.date m.now := hstands.dated ▸ hw.dated c t hstands.issued
  refine ⟨⟨x, v, Nat.le_refl x, hx, ?_, htold⟩, fun t' ht' => ?_⟩
  · rw [hpasses.later.definition c hstands.known, hpasses.later.past x hx]
    exact hstands.past
  · have hissued : t' < ((World.hub m.now).queue c).next := (hinv.ordered c).issued t' ht'
    rw [hpasses.later.dated c t' hissued, ← hstands.dated]
    exact hw.order c t t' (hfirst t' ht') hissued

theorem written_of_due (message : Message) (size : Nat) {reason : String}
    (hdue : StreamFault.due? (h.linkOf c).writeFault = some reason) :
    h.Mutes (written h c message size) :=
  have hsame : ((h.linkOf c).write message size 0).2 = h.linkOf c :=
    congrArg Prod.snd (Link.write_of_due message size 0 hdue)
  .onLink (f := fun _ => ((h.linkOf c).write message size 0).2) (congrArg Link.told? hsame)
    fun hbroken => hsame.symm ▸ hbroken

theorem muting_carryOn {size fuel : Nat} {result : Except HubError Nat}
    (hcount : ∀ n, result = .ok n → n ≠ 0) :
    Muting (Client.carryOn c message size fuel 0 result) := by
  cases result with
  | error e => exact muting_pure _
  | ok n =>
    unfold Client.carryOn
    dsimp only
    rw [Nat.zero_add]
    split
    · exact muting_pure _
    · exact Client.muting_transfer fuel (.inl (hcount n rfl))

/-- In its turn the task tells the client the settings, unless it can be told nothing more. -/
theorem goes_begin {size fuel : Nat} (hstands : World.Stands m.now me c t x v)
    (hfirst : World.IsFirst m.now c t) (hsettings : message.settings? = some v)
    (hsize : 0 < size) :
    Goes (Client.transfer c message size (fuel + 1) 0) m fun _ w => w.Briefed c x := by
  rw [Client.transfer_succ]
  refine goes_of_sound fun hm => goes_waitUntil fun w hw hinv hrely htrust hready => ?_
  have hstands' := hstands.later hm.inv hrely htrust.later
  have hfirst' := hfirst.later hstands.issued hrely
  have hsound : (Moment.resume w : Moment (pact calls me)).Sound := sound_resume hw
  have hrest : ∀ {result : Except HubError Nat} {m' : Moment (pact calls me)},
      (∀ n, result = .ok n → n ≠ 0) → c < (World.hub m'.now).clients.length →
        World.Briefed m'.now c x →
          Goes (Client.carryOn c message size fuel 0 result) m' fun _ w => w.Briefed c x :=
    fun hcount hc hbriefed => (goes_of_muting (muting_carryOn hcount)).mono fun _ _ hpasses _ =>
      hpasses.later.briefed hc hbriefed
  cases hdue : StreamFault.due? (w.hub.linkOf c).writeFault with
  | some reason =>
    have hdeaf : w.hub.IsDeaf c := .inr (Option.isSome_iff_exists.mpr ⟨reason, hdue⟩)
    have hpasses := passes_mutes hsound (written_of_due message size hdue)
    have hresult : (w.hub.fromLink (w.hub.client c).link (·.write message size 0)).1 =
        .error (.transport reason) := congrArg Prod.fst (Link.write_of_due message size 0 hdue)
    refine goes_modifyGet (fun _ => hpasses) (hrest (fun n hn => ?_) ?_ ?_)
    · cases hresult.symm.trans hn
    · exact Nat.lt_of_lt_of_le hstands'.known hpasses.later.clients
    · exact .inr (.inl (hpasses.later.deaf c hstands'.known hdeaf))
  | none =>
    obtain ⟨-, hpasses⟩ := passes_written hsound hinv hstands' hsettings hdue size
    have hheard := heard_written hsound hinv hstands' hfirst' hsettings hdue size
    obtain ⟨count, hpos, -, hresult, -⟩ := Link.write_of_not_due message hdue hready hsize
      (List.append_nil _).symm
    refine goes_modifyGet (fun _ => hpasses) (hrest (fun n hn => ?_) ?_ (.inl hheard))
    · cases hresult.symm.trans hn
      exact Nat.pos_iff_ne_zero.mp hpos
    · exact Nat.lt_of_lt_of_le hstands'.known hpasses.later.clients

/-! ## Coming for the queue -/

theorem stands_entered (hm : m.Sound) (hc : c < (World.hub m.now).clients.length)
    (hpast : World.past m.now (World.date m.now) ((World.hub m.now).client c).definition = some v) :
    World.Stands (m.set (Hub.enterLock (.writer c) m.state).2).now me c
      (Hub.enterLock (.writer c) m.state).1 (World.date m.now) v := by
  have hw : World.Records m.now := hm.inv
  have hticket : (Hub.enterLock (.writer c) m.state).1 = (m.state.queue c).next :=
    Lock.enter_ticket _
  have hqueue : (Hub.enterLock (.writer c) m.state).2.queue c = (m.state.queue c).enter.2 := by
    rw [Hub.queue, Hub.enterLock, Hub.lock_setLock, if_pos rfl]
    rfl
  have hissued : (m.state.queue c).next < ((Hub.enterLock (.writer c) m.state).2.queue c).next := by
    rw [hqueue, Lock.enter_next]
    exact Nat.lt_succ_self _
  have hmutes : m.state.Mutes (Hub.enterLock (.writer c) m.state).2 := .enterLock
  rw [hticket]
  constructor
  case known => exact hc
  case mem =>
    change _ ∈ ((Hub.enterLock (.writer c) m.state).2.queue c).tickets
    rw [hqueue]
    exact Lock.next_mem_enter _
  case issued => exact hissued
  case owner => exact if_pos ⟨Nat.le_refl _, hissued⟩
  case dated => exact move_dated_new (Nat.le_refl _) hissued
  case past =>
    change World.past (World.move me m.now _) _ _ = _
    rw [move_past hw hmutes.registry]
    exact hpast

theorem goes_write (hc : c < (World.hub m.now).clients.length)
    (hpast : World.past m.now (World.date m.now) ((World.hub m.now).client c).definition = some v)
    (hsettings : message.settings? = some v) :
    Goes (Client.write c message) m fun _ w => w.Briefed c (World.date m.now) := by
  refine goes_of_sound fun hm => ?_
  have hstands := stands_entered hm hc hpast
  refine goes_modifyGet (fun hm => passes_mutes hm .enterLock) ?_
  refine Goes.ensuring ?_ (fun _ => .leaveLock) fun _ m' m'' hpasses hpasses' hbriefed =>
    hpasses'.later.briefed (Nat.lt_of_lt_of_le hstands.known hpasses.later.clients) hbriefed
  refine goes_of_sound fun hm₁ => goes_waitUntil fun w hw hinv hrely htrust hheld => ?_
  have hstands' := hstands.later hm₁.inv hrely htrust.later
  have hholder := (Lock.isHeldBy_iff _ _).mp hheld
  have hfirst : w.IsFirst c (Hub.enterLock (.writer c) m.state).1 := fun t' ht' =>
    (hinv.ordered c).le_of_holder hholder ht'
  obtain ⟨fuel, hfuel⟩ := Nat.exists_eq_succ_of_ne_zero (Nat.pos_iff_ne_zero.mp message.frame_pos)
  rw [hfuel]
  exact goes_begin hstands' hfirst hsettings (Nat.succ_pos fuel)

/-! ## The push -/

/-- A client for which there are no settings is told none. -/
theorem void_of_runs (hw : w.Records) (hruns : w.hub.Runs s c)
    (hnone : w.hub.settingsOf (w.hub.session s).definition = none) : w.Void c w.date := by
  refine ⟨w.date, Nat.le_refl _, Nat.le_refl _, ?_⟩
  rw [hw.past, (hw.fits s c hruns).definition]
  exact hnone

theorem goes_tell (hruns : (World.hub m.now).Runs s c)
    (hsettings : (World.hub m.now).settingsOf ((World.hub m.now).session s).definition = some v) :
    Goes (Client.holding c (Client.notify c "workspace/didChangeConfiguration"
      (.mkObj [("settings", v)]))) m fun _ w => w.Briefed c (World.date m.now) := by
  refine goes_of_sound fun hm => goes_modify (fun _ => ?_) fun hpasses => ?_
  · exact .onClient rfl rfl fun hclosed => hclosed
  have hfits := (World.Records.fits hm.inv) s c hruns
  have hpast : World.past m.now (World.date m.now) ((World.hub m.now).client c).definition =
      some v := by
    rw [World.Records.past hm.inv, hfits.definition]
    exact hsettings
  have hknown := (hpasses.later.fits hfits).client
  refine Goes.ensuring ?_ Client.mutes_release fun _ m' m'' hpasses₁ hpasses₂ hbriefed =>
    hpasses₂.later.briefed (Nat.lt_of_lt_of_le hknown hpasses₁.later.clients) hbriefed
  refine goes_get fun m₁ hpasses₁ hsame => ?_
  have hlater : Later m.now m₁.now := hpasses.later.trans hpasses₁.later
  have hdate : World.date m₁.now = World.date m.now := (congrArg Hub.date hsame).trans rfl
  have hknown₁ := (hlater.fits hfits).client
  change Goes (if (m₁.state.client c).isOpen = true then _ else _) m₁ _
  split
  · rw [← hdate]
    refine goes_write hknown₁ ?_ rfl
    rw [hlater.definition c hfits.client, hdate, hlater.past _ (Nat.le_refl _)]
    exact hpast
  · rename_i hclosed
    exact goes_pure (.inr (.inl (.inl (Bool.eq_false_iff.mpr hclosed))))

/-- The client on which the session runs is told the settings, as far as there are any and it can
be told. -/
theorem goes_pushSettings (s : Nat) : Goes (Session.pushSettings s) m fun _ w =>
    ∀ c, (World.hub m.now).Runs s c → w.Briefed c (World.date m.now) := by
  refine goes_of_sound fun hm => goes_get fun m₁ hpasses₁ hsame => ?_
  have hdate : World.date m₁.now = World.date m.now := congrArg Hub.date hsame
  have hruns : ∀ c, (World.hub m.now).Runs s c → (World.hub m₁.now).Runs s c := fun c hc =>
    (congrArg (Hub.Runs · s c) hsame).mpr hc
  rw [Hub.settings_definitionOf, ← hdate]
  cases hsettings : m₁.state.settingsOf (m₁.state.session s).definition with
  | none =>
    exact goes_pure fun c hc =>
      .inr (.inr (void_of_runs hpasses₁.sound.inv (hruns c hc) hsettings))
  | some v =>
    cases hclient : (m₁.state.session s).client? with
    | error e => exact goes_pure fun c hc => by cases hclient.symm.trans (hruns c hc)
    | ok d =>
      refine (goes_tell hclient hsettings).mono fun _ _ _ hbriefed c hc => ?_
      cases hclient.symm.trans (hruns c hc)
      exact hbriefed

end LanguageHub.Briefing
