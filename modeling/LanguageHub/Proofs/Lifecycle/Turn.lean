import LanguageHub.Proofs.Hub.Scene
import LanguageHub.Proofs.Lifecycle.Sparing
import LanguageHub.Proofs.Routine.Company

/-!
# A session's turn

Whoever starts or stops a session has its turn, which goes from one ticket to the next. The
others may only take the session down meanwhile: its link and its client may go, and a session
that is started may fail. Between two turns the session is at rest.
-/

namespace LanguageHub

namespace Lifecycle

open Routine Pact

/-- The hub with what only proofs remember: for which task a ticket was given out, and that
every change so far was lawful. -/
structure World where
  hub : Hub
  owner : Nat → Nat
  lawful : Prop

namespace World

variable (s : Nat) (w : World)

def session : Session := w.hub.session s

def lock : Lock := w.hub.lock (.lifecycle s)

/-- The world once a task has brought the hub to this. New tickets are the task's. -/
def move (me : Nat) (h : Hub) : World where
  hub := h
  owner t := if (w.lock s).next ≤ t ∧ t < (h.lock (.lifecycle s)).next then me else w.owner t
  lawful := w.lawful ∧ Hub.Lawful s w.hub h

/-- What holds wherever all tasks wait. -/
structure Inv : Prop where
  known : s < w.hub.sessions.length
  order : (w.session s).InOrder
  valid : (w.lock s).Valid
  rest : (w.lock s).isFree = true → (w.session s).state.IsAtRest
  lawful : w.lawful

/-- A task has the session's turn with this ticket. -/
structure Holds (me t : Nat) : Prop where
  holder : (w.lock s).holder = some t
  issued : t < (w.lock s).next
  owner : w.owner t = me

end World

/-- All that others do to a session while someone has its turn. -/
structure Meddles (x y : Session) : Prop where
  link : y.link = x.link ∨ y.link = none
  running : y.running = x.running ∨ y.running = none
  state : y.state = x.state ∧ y.lastError = x.lastError ∨
    x.state = .started ∧ y.state = .failed

namespace Meddles

variable {x y z : Session}

theorem of_eq (hlink : y.link = x.link ∨ y.link = none)
    (hrunning : y.running = x.running ∨ y.running = none) (hstate : y.state = x.state)
    (herror : y.lastError = x.lastError) : Meddles x y :=
  ⟨hlink, hrunning, .inl ⟨hstate, herror⟩⟩

theorem refl (x : Session) : Meddles x x := .of_eq (.inl rfl) (.inl rfl) rfl rfl

theorem trans (h : Meddles x y) (h' : Meddles y z) : Meddles x z where
  link := by
    rcases h'.link with heq | hnone
    · rw [heq]
      exact h.link
    · exact .inr hnone
  running := by
    rcases h'.running with heq | hnone
    · rw [heq]
      exact h.running
    · exact .inr hnone
  state := by
    rcases h.state with ⟨hstate, herror⟩ | ⟨hstarted, hfailed⟩
    · rcases h'.state with ⟨hstate', herror'⟩ | ⟨hstarted', hfailed'⟩
      · exact .inl ⟨hstate'.trans hstate, herror'.trans herror⟩
      · exact .inr ⟨hstate.symm.trans hstarted', hfailed'⟩
    · rcases h'.state with ⟨hstate', -⟩ | ⟨hstarted', -⟩
      · exact .inr ⟨hstarted, hstate'.trans hfailed⟩
      · exact absurd (hfailed.symm.trans hstarted') (by simp)

theorem state_eq (h : Meddles x y) (hx : x.state ≠ .started) : y.state = x.state := by
  rcases h.state with ⟨hstate, -⟩ | ⟨hstarted, -⟩
  · exact hstate
  · exact absurd hstarted hx

theorem isAtRest (h : Meddles x y) (hx : x.state.IsAtRest) : y.state.IsAtRest := by
  rcases h.state with ⟨hstate, -⟩ | ⟨-, hfailed⟩
  · rwa [hstate]
  · exact .inr (.inr (.inr hfailed))

end Meddles

/-! ## What tasks promise each other -/

section Promises

variable (s : Nat)

/-- A ticket that has the turn keeps it, and the others only meddle; a ticket that comes to have
it finds the session at rest. -/
def Serves (w w' : World) (t : Nat) : Prop :=
  ((w.lock s).holder = some t →
      (w'.lock s).holder = some t ∧ Meddles (w.session s) (w'.session s)) ∧
    ((w.lock s).holder ≠ some t → (w'.lock s).holder = some t → (w'.session s).state.IsAtRest)

/-- From one world to the other those tickets are served whose owners are such. -/
structure Binds (whose : Nat → Prop) (w w' : World) : Prop where
  next : (w.lock s).next ≤ (w'.lock s).next
  owner : ∀ t, t < (w.lock s).next → w'.owner t = w.owner t
  serves : ∀ t, t < (w.lock s).next → whose (w.owner t) → Serves s w w' t

end Promises

variable {s me t : Nat} {whose : Nat → Prop} {w w' w'' : World} {h : Hub}

theorem Serves.refl (w : World) (t : Nat) : Serves s w w t :=
  ⟨fun hheld => ⟨hheld, .refl _⟩, fun hne hheld => absurd hheld hne⟩

theorem Serves.trans (first : Serves s w w' t) (second : Serves s w' w'' t) :
    Serves s w w'' t := by
  refine ⟨fun hheld => ?_, fun hne hheld => ?_⟩
  · obtain ⟨hheld', hmeddles⟩ := first.1 hheld
    obtain ⟨hheld'', hmeddles'⟩ := second.1 hheld'
    exact ⟨hheld'', hmeddles.trans hmeddles'⟩
  · by_cases hbetween : (w'.lock s).holder = some t
    · exact (second.1 hbetween).2.isAtRest (first.2 hne hbetween)
    · exact second.2 hbetween hheld

theorem Binds.refl (whose : Nat → Prop) (w : World) : Binds s whose w w :=
  ⟨Nat.le_refl _, fun _ _ => rfl, fun t _ _ => .refl w t⟩

theorem Binds.trans (first : Binds s whose w w') (second : Binds s whose w' w'') :
    Binds s whose w w'' where
  next := Nat.le_trans first.next second.next
  owner t ht := (second.owner t (Nat.lt_of_lt_of_le ht first.next)).trans (first.owner t ht)
  serves t ht hwhose :=
    (first.serves t ht hwhose).trans
      (second.serves t (Nat.lt_of_lt_of_le ht first.next) ((first.owner t ht).symm ▸ hwhose))

/-- What a task guarantees to all others another one may rely on. -/
theorem Binds.rely_of_guarantee {you : Nat} (hbinds : Binds s (· ≠ me) w w') (hne : you ≠ me) :
    Binds s (· = you) w w' where
  next := hbinds.next
  owner := hbinds.owner
  serves t ht howner := hbinds.serves t ht (howner.symm ▸ hne)

/-- The tasks at the session. -/
abbrev company (s : Nat) : Company Job Hub where
  World := World
  state := World.hub
  move me w h := w.move s me h
  state_move _ _ _ := rfl
  allows _ _ _ := True
  inv := World.Inv s
  guarantee me := Binds s (· ≠ me)
  rely me := Binds s (· = me)
  starts _ job := job.IsAt s
  rely_refl _ w := .refl _ w
  rely_trans := .trans
  rely_of_guarantee hne _ _ _ hbinds := hbinds.rely_of_guarantee hne

/-- The pact of a task with the others at the session. -/
abbrev pact (s me : Nat) : Pact Job Hub := (company s).pact me

theorem Binds.holds (hbinds : Binds s (· = me) w w') (hw : w.Holds s me t) : w'.Holds s me t where
  holder := ((hbinds.serves t hw.issued hw.owner).1 hw.holder).1
  issued := Nat.lt_of_lt_of_le hw.issued hbinds.next
  owner := (hbinds.owner t hw.issued).trans hw.owner

theorem Binds.meddles (hbinds : Binds s (· = me) w w') (hw : w.Holds s me t) :
    Meddles (w.session s) (w'.session s) :=
  ((hbinds.serves t hw.issued hw.owner).1 hw.holder).2

/-! ## Changes that leave the turn as it is -/

section SameLock

variable (hlock : h.lock (.lifecycle s) = w.lock s)

include hlock

theorem owner_move : (w.move s me h).owner = w.owner := by
  funext t
  refine if_neg ?_
  rw [hlock]
  exact fun hboth => Nat.lt_irrefl _ (Nat.lt_of_le_of_lt hboth.1 hboth.2)

theorem holds_move (hw : w.Holds s me t) : (w.move s me h).Holds s me t where
  holder := (congrArg Lock.holder hlock).trans hw.holder
  issued := Nat.lt_of_lt_of_eq hw.issued (congrArg Lock.next hlock).symm
  owner := by
    rw [owner_move hlock]
    exact hw.owner

theorem binds_of_serves (hserves : ∀ t, whose (w.owner t) → Serves s w (w.move s me h) t) :
    Binds s whose w (w.move s me h) where
  next := Nat.le_of_eq (congrArg Lock.next hlock).symm
  owner t _ := congrFun (owner_move hlock) t
  serves t _ hwhose := hserves t hwhose

theorem binds_of_meddles (hmeddles : Meddles (w.session s) (h.session s)) :
    Binds s whose w (w.move s me h) :=
  binds_of_serves hlock fun _ _ =>
    ⟨fun hheld => ⟨(congrArg Lock.holder hlock).trans hheld, hmeddles⟩,
      fun hne hheld => absurd ((congrArg Lock.holder hlock).symm.trans hheld) hne⟩

/-- Who has the turn owes nothing to anybody else. -/
theorem binds_of_holds (hw : w.Holds s me t) : Binds s (· ≠ me) w (w.move s me h) :=
  binds_of_serves hlock fun t' hother => by
    have hne : (w.lock s).holder ≠ some t' := by
      intro hheld
      obtain rfl := Option.some.inj (hw.holder.symm.trans hheld)
      exact hother hw.owner
    exact ⟨fun hheld => absurd hheld hne,
      fun _ hheld => absurd ((congrArg Lock.holder hlock).symm.trans hheld) hne⟩

end SameLock

/-- A change that a task may make without giving its turn away. -/
structure Acts (s me : Nat) (w : World) (h : Hub) : Prop where
  lock : h.lock (.lifecycle s) = w.lock s
  known : s < h.sessions.length
  order : (h.session s).InOrder
  lawful : Hub.Lawful s w.hub h
  leave : Meddles (w.session s) (h.session s) ∨ ∃ t, w.Holds s me t

theorem Acts.binds (hacts : Acts s me w h) : Binds s (· ≠ me) w (w.move s me h) := by
  rcases hacts.leave with hmeddles | ⟨t, hw⟩
  · exact binds_of_meddles hacts.lock hmeddles
  · exact binds_of_holds hacts.lock hw

theorem Acts.inv (hacts : Acts s me w h) (hw : w.Inv s) : (w.move s me h).Inv s where
  known := hacts.known
  order := hacts.order
  valid := by
    have hvalid := hw.valid
    rwa [← hacts.lock] at hvalid
  rest hfree := by
    have hfree' : (w.lock s).isFree = true := by
      rw [← hacts.lock]
      exact hfree
    rcases hacts.leave with hmeddles | ⟨t, hholds⟩
    · exact hmeddles.isAtRest (hw.rest hfree')
    · rw [Lock.isFree_iff, hholds.holder] at hfree'
      cases hfree'
  lawful := ⟨hw.lawful, hacts.lawful⟩

theorem acts_of_spares (hspares : Hub.Spares s w.hub h) (hw : w.Inv s) : Acts s me w h where
  lock := hspares.lock
  known := hspares.known hw.known
  order := by
    rw [Hub.session_eq hspares.session]
    exact hw.order
  lawful := hspares.lawful
  leave := .inl (by
    rw [Hub.session_eq hspares.session]
    exact .refl _)

theorem rely_of_spares (hspares : Hub.Spares s w.hub h) : Binds s whose w (w.move s me h) :=
  binds_of_meddles hspares.lock (by
    rw [Hub.session_eq hspares.session]
    exact .refl _)

/-! ## Coming for the turn and leaving -/

theorem lock_enter : (w.move s me (Hub.enterLock (.lifecycle s) w.hub).2).lock s =
    (w.lock s).enter.2 :=
  (Hub.lock_setLock _ _ _).trans (if_pos rfl)

theorem owner_enter : (w.move s me (Hub.enterLock (.lifecycle s) w.hub).2).owner
    (w.lock s).next = me := by
  refine if_pos ⟨Nat.le_refl _, ?_⟩
  have hlock : (Hub.enterLock (.lifecycle s) w.hub).2.lock (.lifecycle s) = (w.lock s).enter.2 :=
    (Hub.lock_setLock _ _ _).trans (if_pos rfl)
  rw [hlock, Lock.enter_next]
  exact Nat.lt_succ_self _

theorem binds_enter : Binds s whose w (w.move s me (Hub.enterLock (.lifecycle s) w.hub).2) where
  next := by
    rw [lock_enter, Lock.enter_next]
    exact Nat.le_succ _
  owner t ht := if_neg fun hboth => Nat.lt_irrefl _ (Nat.lt_of_lt_of_le ht hboth.1)
  serves t ht _ := by
    refine ⟨fun hheld => ⟨?_, .refl _⟩, fun hne hheld => ?_⟩
    · have hbusy : (w.lock s).isFree ≠ true := by simp [Lock.isFree, hheld]
      rw [lock_enter, Lock.enter_holder, if_neg hbusy]
      exact hheld
    · rw [lock_enter, Lock.enter_holder] at hheld
      split at hheld
      · obtain rfl := Option.some.inj hheld
        exact absurd ht (Nat.lt_irrefl _)
      · exact absurd hheld hne

theorem inv_enter (hw : w.Inv s) :
    (w.move s me (Hub.enterLock (.lifecycle s) w.hub).2).Inv s where
  known := hw.known
  order := hw.order
  valid := by
    rw [lock_enter]
    exact hw.valid.enter
  rest hfree := by
    rw [lock_enter, Lock.enter_isFree] at hfree
    cases hfree
  lawful := ⟨hw.lawful, Hub.lawful_of_eq rfl rfl⟩

/-- Who has come to have the turn finds the session at rest. -/
theorem holds_of_entered (hw : w.Inv s)
    (hbinds : Binds s (· = me) (w.move s me (Hub.enterLock (.lifecycle s) w.hub).2) w')
    (hheld : (w'.lock s).holder = some (w.lock s).next) :
    w'.Holds s me (w.lock s).next ∧ (w'.session s).state.IsAtRest := by
  have hissued : (w.lock s).next <
      ((w.move s me (Hub.enterLock (.lifecycle s) w.hub).2).lock s).next := by
    rw [lock_enter, Lock.enter_next]
    exact Nat.lt_succ_self _
  refine ⟨⟨hheld, Nat.lt_of_lt_of_le hissued hbinds.next,
    (hbinds.owner _ hissued).trans owner_enter⟩, ?_⟩
  have hserves := hbinds.serves _ hissued owner_enter
  by_cases hnow : ((w.move s me (Hub.enterLock (.lifecycle s) w.hub).2).lock s).holder =
      some (w.lock s).next
  · refine (hserves.1 hnow).2.isAtRest (hw.rest ?_)
    rw [lock_enter, Lock.enter_holder] at hnow
    split at hnow
    · assumption
    · have hmem : (w.lock s).next ∈ (w.lock s).tickets := by simp [Lock.tickets, hnow]
      exact absurd (hw.valid.issued _ hmem) (Nat.lt_irrefl _)
  · exact hserves.2 hnow hheld

theorem lock_leave : (w.move s me (Hub.leaveLock (.lifecycle s) t w.hub)).lock s =
    (w.lock s).leave t :=
  (Hub.lock_setLock _ _ _).trans (if_pos rfl)

/-- Who leaves a session at rest gives its turn to the next. -/
theorem leave_turn (hw : w.Inv s) (hholds : w.Holds s me t)
    (hrest : (w.session s).state.IsAtRest) :
    (w.move s me (Hub.leaveLock (.lifecycle s) t w.hub)).Inv s ∧
      Binds s (· ≠ me) w (w.move s me (Hub.leaveLock (.lifecycle s) t w.hub)) := by
  refine ⟨⟨hw.known, hw.order, ?_, fun _ => hrest, hw.lawful, Hub.lawful_of_eq rfl rfl⟩,
    ?_, fun t' ht' => ?_, fun t' _ hother => ⟨fun hheld => ?_, fun _ _ => hrest⟩⟩
  · rw [lock_leave]
    exact hw.valid.leave t
  · exact Nat.le_of_eq (by rw [lock_leave, Lock.leave_next])
  · exact if_neg fun hboth => Nat.lt_irrefl _ (Nat.lt_of_lt_of_le ht' hboth.1)
  · obtain rfl := Option.some.inj (hholds.holder.symm.trans hheld)
    exact absurd hholds.owner hother

end Lifecycle

end LanguageHub
