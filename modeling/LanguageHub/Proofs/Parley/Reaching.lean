import LanguageHub.Proofs.Parley.Turn
import LanguageHub.Proofs.Routine.Leg

/-!
# Programs at a site

What a program reaches is said by what holds of the world before and after it; in between it
keeps the pact at the site. What depends on some locks only lasts while the others are taken and
left. Whoever has come to hold the send lock of the document finds the server told of all that
was taken, and leaves it so.
-/

namespace LanguageHub.Parley

open Routine Pact
open DocumentNotice (Tells)

variable {p : Site} {me k t : Nat} {n : LockName} {minded : LockName → Prop} {α β : Type}

abbrev Reaches (p : Site) (me : Nat) (P : World → Prop) (q : Program α)
    (Q : α → World → Prop) : Prop := (pact p me).Reaches P q Q

/-- What stays so while the task's tickets in these locks are served and it gets no more. -/
def Lasting (p : Site) (me : Nat) (minded : LockName → Prop) (P : World → Prop) : Prop :=
  ∀ w w' : World, w'.Inv p → Binds p w w' minded (· = me) (· ≠ me) → P w → P w'

/-- What the others do not change while the task waits. -/
abbrev Enduring (p : Site) (me : Nat) (P : World → Prop) : Prop :=
  Lasting p me (fun _ => True) P

section Rules

variable {P P' : World → Prop} {Q Q' : α → World → Prop} {q : Program α}

theorem Lasting.enduring (hP : Lasting p me minded P) : Enduring p me P :=
  fun w w' hw' hbinds => hP w w' hw' (hbinds.mono fun _ _ => trivial)

theorem Lasting.and (hP : Lasting p me minded P) (hP' : Lasting p me minded P') :
    Lasting p me minded fun w => P w ∧ P' w :=
  fun w w' hw' hbinds hboth => ⟨hP w w' hw' hbinds hboth.1, hP' w w' hw' hbinds hboth.2⟩

theorem enduring_holds : Enduring p me fun w => w.Holds me n t :=
  fun _ _ _ hbinds hw => hbinds.holds trivial hw

theorem sound_set {m : Moment (pact p me)} {h : Hub} (hm : m.Sound)
    (hacts : Acts p me m.now h) : (m.set h).Sound :=
  ⟨hacts.inv hm.inv, hm.guarantee.trans hacts.guarantee, hm.jobs⟩

theorem sound_quiet {m : Moment (pact p me)} {h : Hub} (hm : m.Sound)
    (hquiet : p.Quiet (World.hub m.now) h) : (m.set h).Sound :=
  sound_set hm (acts_of_quiet hquiet hm.inv)

theorem sound_resume {w : World} (hw : w.Inv p) : (Moment.resume w : Moment (pact p me)).Sound :=
  ⟨hw, .refl w, fun _ hjob => (nomatch hjob)⟩

theorem reaches_modifyGet {f : Hub → α × Hub}
    (h : ∀ w : World, w.Inv p → P w →
      Acts p me w (f w.hub).2 ∧ Q (f w.hub).1 (w.move p me (f w.hub).2)) :
    Reaches p me P (modifyGet f : Program α) Q := fun m hm hPm _ =>
  ⟨sound_set hm (h m.now hm.inv hPm).1, (h m.now hm.inv hPm).2⟩

theorem reaches_quiet {f : Hub → Hub} (hP : Enduring p me P) (hf : ∀ h, p.Quiet h (f h)) :
    Reaches p me P (modify f : Program Unit) fun _ => P := fun m hm hPm _ => by
  have hsound : (m.set (f m.state)).Sound := sound_quiet hm (hf _)
  exact ⟨hsound, hP _ _ hsound.inv (binds_of_quiet (hf _)) hPm⟩

/-- What follows the state may depend on how it is at the moment. -/
theorem reaches_get {next : Hub → Program α} (hP : Enduring p me P)
    (hnext : ∀ h, Reaches p me (fun w => P w ∧ w.hub = h) (next h) Q) :
    Reaches p me P (get >>= next) Q := fun m hm hPm _ => by
  have hquiet : p.Quiet (World.hub m.now) (World.hub m.now) := ⟨rfl, rfl⟩
  have hsound : (m.set m.state).Sound := sound_quiet hm hquiet
  exact hnext m.state _ hsound ⟨hP _ _ hsound.inv (binds_of_quiet hquiet) hPm, rfl⟩

theorem reaches_gets {f : Hub → β} {next : β → Program α} (hP : Enduring p me P)
    (hnext : ∀ h, Reaches p me (fun w => P w ∧ w.hub = h) (next (f h)) Q) :
    Reaches p me P (gets f >>= next) Q := by
  change Reaches p me P (get >>= fun h => next (f h)) Q
  exact reaches_get hP hnext

theorem reaches_waitUntil {ready : Hub → Bool} (hP : Enduring p me P) :
    Reaches p me P (waitUntil ready : Program Unit) fun _ w => P w ∧ ready w.hub = true :=
  fun _ hm hPm => ⟨hm, fun _ hw hrely =>
    ⟨trivial, fun hready => ⟨sound_resume hw, hP _ _ hw hrely hPm, hready⟩⟩⟩

theorem Reaches.ensuring {cleanup : Hub → Hub} (hq : Reaches p me P q Q)
    (hQ : ∀ b, Enduring p me (Q b)) (hcleanup : ∀ h, p.Quiet h (cleanup h)) :
    Reaches p me P (Routine.ensuring cleanup q) Q := fun m hm hPm =>
  keeps_ensuring ((hq m hm hPm).mono fun m' b hgoal _ => by
    have hsound : (m'.set (cleanup m'.state)).Sound := sound_quiet hgoal.1 (hcleanup _)
    exact ⟨hsound, hQ b _ _ hsound.inv (binds_of_quiet (hcleanup _)) hgoal.2⟩)

end Rules

/-! ## Locks -/

section Locks

variable {P : World → Prop} {P' : Nat → World → Prop} {Q : α → World → Prop}
  {Q' : Nat → α → World → Prop} {q : Program α}

/-- Whoever holds a lock leaves it tidy. -/
theorem sound_leave {m : Moment (pact p me)} (hm : m.Sound) (hholds : World.Holds m.now me n t)
    (htidy : World.Tidy p m.now n) : (m.set (Hub.leaveLock n t m.state)).Sound :=
  ⟨inv_leave hm.inv hholds htidy,
    hm.guarantee.trans ⟨binds_leave hholds htidy fun _ hother => hother rfl, rfl⟩, hm.jobs⟩

/-- Who comes for a lock holds it after a while and finds it tidy. -/
theorem reaches_withLock
    (hissue : ∀ w : World, w.Inv p → P w →
      ∀ k, n = .send k → k < w.hub.synchronizers.length)
    (henter : ∀ w w' : World, w.Inv p → P w → w'.Inv p →
      Rely p me (w.move p me (Hub.enterLock n w.hub).2) w' →
      w'.Holds me n (w.hub.lock n).next → w'.Tidy p n → P' (w.hub.lock n).next w')
    (hq : ∀ t, Reaches p me (P' t) q fun b w => w.Holds me n t ∧ w.Tidy p n ∧ Q' t b w)
    (hleave : ∀ t b (w : World), w.Inv p → w.Holds me n t → Q' t b w →
      Q b (w.move p me (Hub.leaveLock n t w.hub))) :
    Reaches p me P (Program.withLock n q) Q := fun m hm hPm _ => by
  have hticket : (Hub.enterLock n m.state).1 = ((World.hub m.now).lock n).next :=
    Lock.enter_ticket _
  change Keeps _ (Routine.ensuring (Hub.leaveLock n (Hub.enterLock n m.state).1)
    (waitUntil (fun h => (h.lock n).isHeldBy (Hub.enterLock n m.state).1) >>= fun _ => q)) _ _
  rw [hticket]
  have hsound : (m.set (Hub.enterLock n m.state).2).Sound :=
    ⟨inv_enter hm.inv (hissue m.now hm.inv hPm),
      hm.guarantee.trans ⟨binds_enter fun _ => rfl, rfl⟩, hm.jobs⟩
  refine keeps_ensuring (keeps_bind.mpr ⟨hsound, fun w hw hrely => ⟨trivial, fun hready => ?_⟩⟩)
  obtain ⟨hholds, htidy⟩ := holds_of_entered hm.inv hrely ((Lock.isHeldBy_iff _ _).mp hready)
  have hstart := henter m.now w hm.inv hPm hw hrely hholds htidy
  refine (hq _ (.resume w) (sound_resume hw) hstart).mono fun m' b hgoal _ => ?_
  obtain ⟨hsound', hholds', htidy', hQ'⟩ := hgoal
  exact ⟨sound_leave hsound' hholds' htidy', hleave _ b m'.now hsound'.inv hholds' hQ'⟩

theorem tidy_of_not_send (hn : ¬ n.IsSend) (w : World) : w.Tidy p n := by
  cases n with
  | send k => exact absurd trivial hn
  | _ => trivial

/-- Another lock may be held meanwhile. -/
theorem Reaches.withLock (hn : ¬ n.IsSend) (hP : Lasting p me LockName.IsSend P)
    (hQ : ∀ b, Lasting p me LockName.IsSend (Q b))
    (hq : ∀ t, Reaches p me (fun w => w.Holds me n t ∧ P w) q
      fun b w => w.Holds me n t ∧ Q b w) :
    Reaches p me P (Program.withLock n q) Q := by
  have htidy : ∀ t, Reaches p me (fun w => w.Holds me n t ∧ P w) q
      fun b w => w.Holds me n t ∧ w.Tidy p n ∧ Q b w := fun t =>
    (hq t).weaken (fun _ h => h) fun _ w h => ⟨h.1, tidy_of_not_send hn w, h.2⟩
  refine reaches_withLock (fun _ _ _ k hk => absurd (hk ▸ trivial) hn)
    (fun w w' hw hPw hw' hrely hholds _ => ?_) htidy fun t b w hw hholds hQw => ?_
  · have henter : Binds p w (w.move p me (Hub.enterLock n w.hub).2) LockName.IsSend (· = me)
        (· ≠ me) := binds_enter fun hsend => absurd hsend hn
    exact ⟨hholds, hP _ _ hw' (henter.trans (hrely.mono fun _ _ => trivial)) hPw⟩
  · exact hQ b _ _ (inv_leave hw hholds (tidy_of_not_send hn w))
      (binds_leave hholds (tidy_of_not_send hn w) fun hsend => absurd hsend hn) hQw

end Locks

/-! ## Having the word -/

/-- Of the tickets in send locks these are the task's. -/
def World.OwnsOnly (w : World) (me : Nat) (tickets : Nat → Nat → Prop) : Prop :=
  ∀ k t, t ∈ (w.hub.lock (.send k)).tickets → w.owner (.send k) t = me → tickets k t

/-- No send lock has a ticket of the task. -/
abbrev World.Clear (w : World) (me : Nat) : Prop := w.OwnsOnly me fun _ _ => False

/-- The task has the word about the document and knows this of what was heard and taken. -/
structure InTurn (p : Site) (me k t : Nat) (F : List Message → List (List TextChange) → Prop)
    (w : World) : Prop where
  holds : w.Holds me (.send k) t
  attached : p.attached w.hub = some k
  only : w.OwnsOnly me fun k' t' => k' = k ∧ t' = t
  fact : F (p.heard w.hub) w.taken

/-- All that was taken was heard. -/
def Even (p : Site) (heard : List Message) (taken : List (List TextChange)) : Prop :=
  Tells p.uri taken heard

variable {F : List Message → List (List TextChange) → Prop} {tickets : Nat → Nat → Prop}

theorem lasting_ownsOnly : Lasting p me LockName.IsSend fun w => w.OwnsOnly me tickets := by
  intro w w' hw' hbinds hw k t hmem howner
  have hold : t < (w'.hub.lock (.send k)).next := (hw'.valid _).issued t hmem
  by_cases hissued : t < (w.hub.lock (.send k)).next
  · rw [hbinds.owner (.send k) t trivial hissued] at howner
    exact hw k t (hbinds.gone (.send k) t trivial hissued hmem) howner
  · exact absurd howner (hbinds.given (.send k) t trivial (Nat.le_of_not_lt hissued) hold)

theorem lasting_inTurn : Lasting p me LockName.IsSend (InTurn p me k t F) := by
  intro w w' hw' hbinds hw
  have hattached := hbinds.attached k hw.attached
  obtain ⟨-, hheard, htaken⟩ := hbinds.protects (n := .send k) trivial hw.holds hattached
  refine ⟨hbinds.holds trivial hw.holds, hattached, lasting_ownsOnly w w' hw' hbinds hw.only, ?_⟩
  rw [hheard, htaken]
  exact hw.fact

theorem ownsOnly_enter {w : World} (hvalid : ∀ n, (w.hub.lock n).Valid) (hclear : w.Clear me) :
    (w.move p me (Hub.enterLock (.send k) w.hub).2).OwnsOnly me
      fun k' t' => k' = k ∧ t' = (w.hub.lock (.send k)).next := by
  intro k' t' hmem howner
  have hbefore : t' ∈ (w.hub.lock (.send k')).tickets ∨
      k' = k ∧ t' = (w.hub.lock (.send k)).next := by
    change t' ∈ ((Hub.enterLock (.send k) w.hub).2.lock (.send k')).tickets at hmem
    rw [lock_enter] at hmem
    split at hmem
    · rename_i heq
      cases heq
      exact (Lock.mem_tickets_of_enter hmem).imp_right fun heq => ⟨rfl, heq⟩
    · exact .inl hmem
  refine hbefore.resolve_left fun hmem' => hclear k' t' hmem' ?_
  have hissued := (hvalid _).issued t' hmem'
  exact (if_neg fun hnew => absurd hissued (Nat.not_lt_of_le hnew.1)).symm.trans howner

theorem InTurn.clear_leave {w : World} (hw : w.Inv p) (hturn : InTurn p me k t F w) :
    (w.move p me (Hub.leaveLock (.send k) t w.hub)).Clear me := by
  intro k' t' hmem howner
  have hstill : t' ∈ (w.hub.lock (.send k')).tickets ∧ ¬ (k' = k ∧ t' = t) := by
    change t' ∈ ((Hub.leaveLock (.send k) t w.hub).lock (.send k')).tickets at hmem
    rw [lock_leave] at hmem
    split at hmem
    · rename_i heq
      cases heq
      rw [(hw.valid _).tickets_leave, List.mem_filter] at hmem
      exact ⟨hmem.1, fun hboth => by simp [hboth.2] at hmem⟩
    · rename_i hne
      exact ⟨hmem, fun hboth => hne (congrArg LockName.send hboth.1)⟩
  refine hstill.2 (hturn.only k' t' hstill.1 ?_)
  have hissued := (hw.valid _).issued t' hstill.1
  exact (if_neg fun hnew => absurd hissued (Nat.not_lt_of_le hnew.1)).symm.trans howner

/-- Whoever comes for the word finds the server told of all that was taken, and leaves it so. -/
theorem reaches_withWord {q : Program α}
    (hq : ∀ t, Reaches p me (InTurn p me k t (Even p)) q fun _ => InTurn p me k t (Even p)) :
    Reaches p me (fun w => w.Clear me ∧ p.attached w.hub = some k)
      (Program.withLock (.send k) q) fun _ w => w.Clear me := by
  have htidy : ∀ t, Reaches p me (InTurn p me k t (Even p)) q
      fun _ w => w.Holds me (.send k) t ∧ w.Tidy p (.send k) ∧ InTurn p me k t (Even p) w :=
    fun t => (hq t).weaken (fun _ h => h) fun _ _ h => ⟨h.holds, fun _ => h.fact, h⟩
  refine reaches_withLock ?issue ?enter htidy fun t _ w hw _ hturn => hturn.clear_leave hw
  case issue =>
    intro w hw hPw k' hk'
    cases hk'
    exact (hw.filed k hPw.2).known
  case enter =>
    intro w w' hw hPw hw' hrely hholds htidy
    have hattached : p.attached w'.hub = some k := hrely.attached k hPw.2
    refine ⟨hholds, hattached, ?_, htidy hattached⟩
    exact lasting_ownsOnly _ w' hw' (hrely.mono fun _ _ => trivial) (ownsOnly_enter hw.valid hPw.1)

end LanguageHub.Parley
