import LanguageHub.Proofs.Hub.Following
import LanguageHub.Proofs.Lifecycle.Resting
import LanguageHub.Proofs.Manners.Starting
import LanguageHub.Proofs.Routine.Relying

/-!
# Restarting the sessions of a definition

New initialization options of a definition restart its sessions one after the other, until the
restart of one fails. A session that had its turn runs on no client of before, whatever the others
do meanwhile: they bring sessions to run on new clients, and only a start that was under way when
the options changed may still end on an older one. The sessions after the one that failed keep the
clients that they have.

Laws: what the others may do is reflexive and transitive; a restart leaves its session renewed.
-/

namespace LanguageHub

open Routine

namespace Hub

variable {o h h' h'' : Hub} {s : Nat} {seen : List Nat} {state : ServerState}

/-- The start of the session that was under way in the beginning still is: whoever had the turn
then has not given it up, and the session is initializing as it was. -/
structure Underway (o : Hub) (s : Nat) (h : Hub) : Prop where
  began : (o.session s).state = .initializing
  state : (h.session s).state = .initializing
  turn : ∃ t, (o.lock (.lifecycle s)).holder = some t ∧ t ∈ (h.lock (.lifecycle s)).tickets

/-- The session runs on no client that was there in the beginning, and no start is left that could
bring it to one. -/
structure IsRenewed (o : Hub) (s : Nat) (h : Hub) : Prop where
  client : ∀ c, h.Runs s c → o.clients.length ≤ c
  start : ¬ o.Underway s h

/-- What happens after the beginning: turns at sessions are taken in order, a session that was ever
started remains so, and a session comes to run only on a new client, unless its start was under way
in the beginning. -/
structure Renews (o h h' : Hub) : Prop where
  clients : h.clients.length ≤ h'.clients.length
  turns : ∀ s, (h.lock (.lifecycle s)).Follows (fun _ => True) (h'.lock (.lifecycle s))
  begun : ∀ s, (h.session s).state ≠ .notStarted → (h'.session s).state ≠ .notStarted
  underway : ∀ s, o.Underway s h' → o.Underway s h
  runs : ∀ s c, h'.Runs s c → h.Runs s c ∨ o.clients.length ≤ c ∨ o.Underway s h

theorem Renews.refl (o h : Hub) : o.Renews h h where
  clients := Nat.le_refl _
  turns _ := .refl _
  begun _ := id
  underway _ := id
  runs _ _ := .inl

theorem Renews.trans (first : o.Renews h h') (second : o.Renews h' h'') : o.Renews h h'' where
  clients := Nat.le_trans first.clients second.clients
  turns s := (first.turns s).trans (second.turns s)
  begun s := second.begun s ∘ first.begun s
  underway s := first.underway s ∘ second.underway s
  runs s c hruns := by
    rcases second.runs s c hruns with hruns | hnew | hstart
    · exact first.runs s c hruns
    · exact .inr (.inl hnew)
    · exact .inr (.inr (first.underway s hstart))

theorem Rests.renews (o : Hub) (hrests : h.Rests h') : o.Renews h h' where
  clients := hrests.clients
  turns s := by
    rw [hrests.turn]
    exact .refl _
  begun s hs := by rwa [hrests.state]
  underway s hstart :=
    ⟨hstart.began, (hrests.state s).symm.trans hstart.state, hrests.turn s ▸ hstart.turn⟩
  runs _ _ hruns := .inl (hrests.runs hruns)

/-! ## Sessions that had their turn -/

/-- Since the beginning, these sessions were renewed. -/
structure Renewing (o : Hub) (seen : List Nat) (h : Hub) : Prop where
  clients : o.clients.length ≤ h.clients.length
  next : ∀ s, (o.lock (.lifecycle s)).next ≤ (h.lock (.lifecycle s)).next
  ordered : ∀ s, (h.lock (.lifecycle s)).Ordered
  seen : ∀ s ∈ seen, o.IsRenewed s h

theorem IsRenewed.later (hrenewed : o.IsRenewed s h) (hrenews : o.Renews h h') :
    o.IsRenewed s h' where
  client c hruns := by
    rcases hrenews.runs s c hruns with hruns | hnew | hstart
    · exact hrenewed.client c hruns
    · exact hnew
    · exact absurd hstart hrenewed.start
  start := hrenewed.start ∘ hrenews.underway s

theorem Renewing.later (hrenewing : o.Renewing seen h) (hrenews : o.Renews h h') :
    o.Renewing seen h' where
  clients := Nat.le_trans hrenewing.clients hrenews.clients
  next s := Nat.le_trans (hrenewing.next s) (hrenews.turns s).next
  ordered s := (hrenews.turns s).ordered (hrenewing.ordered s)
  seen s hs := (hrenewing.seen s hs).later hrenews

theorem Renewing.cons (hrenewing : o.Renewing seen h) (hs : o.IsRenewed s h) :
    o.Renewing (s :: seen) h :=
  { hrenewing with seen := List.forall_mem_cons.mpr ⟨hs, hrenewing.seen⟩ }

/-- A session's turn, for which nobody is left who came before the beginning. -/
structure InTurn (o : Hub) (s : Nat) (seen : List Nat) (h : Hub) : Prop extends
    Renewing o seen h where
  left : ∀ t ∈ (h.lock (.lifecycle s)).tickets, (o.lock (.lifecycle s)).next ≤ t
  begun : (h.session s).state ≠ .notStarted

theorem InTurn.later (hin : o.InTurn s seen h) (hrenews : o.Renews h h') : o.InTurn s seen h' where
  toRenewing := hin.toRenewing.later hrenews
  left t ht := ((hrenews.turns s).mem t ht).elim (hin.left t) (Nat.le_trans (hin.next s))
  begun := hrenews.begun s hin.begun

theorem InTurn.known (hin : o.InTurn s seen h) : s < h.sessions.length := by
  by_contra hunknown
  refine hin.begun ?_
  rw [session, List.getElem?_eq_none (Nat.le_of_not_lt hunknown)]
  rfl

theorem places_enter (s : Nat) (state : ServerState) (h : Hub) :
    (Session.enter s state h).clients = h.clients ∧
      ∀ n, (Session.enter s state h).lock n = h.lock n := by
  unfold Session.enter
  dsimp only
  split <;> exact ⟨rfl, fun _ => rfl⟩

section Turn

variable (ho : ∀ s, (o.lock (.lifecycle s)).Ordered)

include ho

theorem not_underway_of_left
    (hleft : ∀ t ∈ (h.lock (.lifecycle s)).tickets, (o.lock (.lifecycle s)).next ≤ t) :
    ¬ o.Underway s h := by
  rintro ⟨-, -, t, hholder, ht⟩
  exact absurd (hleft t ht) (Nat.not_le_of_lt ((ho s).holder_lt_next hholder))

/-- Whoever has the turn moves the session to another state, and to the started one on a new
client. -/
theorem InTurn.enter (hin : o.InTurn s seen h) (hstate : state ≠ .notStarted)
    (hclient : state = .started → ∀ c, h.speaker s = some c → o.clients.length ≤ c) :
    o.InTurn s seen (Session.enter s state h) := by
  obtain ⟨hclients, hlock⟩ := places_enter s state h
  have hmoved : ∀ t, s = t ∧ ((Session.enter s state h).session t).state = state ∨
      ((Session.enter s state h).session t).state = (h.session t).state := fun t => by
    rw [Manners.state_enter]
    split
    · exact .inl ⟨‹_ ∧ _›.1, rfl⟩
    · exact .inr rfl
  apply hin.later
  constructor
  case clients => rw [hclients]
  case turns =>
    intro t
    rw [hlock]
    exact .refl _
  case begun =>
    intro t ht
    rcases hmoved t with ⟨-, heq⟩ | heq <;> rwa [heq]
  case underway =>
    intro t hstart
    rcases hmoved t with ⟨rfl, -⟩ | heq
    · exact absurd hstart (not_underway_of_left ho fun t ht => hin.left t (by rwa [hlock] at ht))
    · exact ⟨hstart.began, heq.symm.trans hstart.state, by rw [← hlock]; exact hstart.turn⟩
  case runs =>
    intro t c hruns
    obtain ⟨hstarted, hspeaker⟩ := runs_iff.mp hruns
    rw [Manners.speaker_enter] at hspeaker
    rcases hmoved t with ⟨rfl, heq⟩ | heq
    · exact .inr (.inl (hclient (heq.symm.trans hstarted) c hspeaker))
    · exact .inl (runs_iff.mpr ⟨heq.symm.trans hstarted, hspeaker⟩)

theorem InTurn.fail (hin : o.InTurn s seen h) (e : HubError) :
    o.InTurn s seen (Session.fail s e h) ∧ ((Session.fail s e h).session s).state = .failed := by
  have hnoted : h.Rests (h.onSession s fun session =>
      { session with lastError := some e.message }) := .onSession (fun _ => rfl) fun _ => .inl rfl
  have hin' := hin.later (hnoted.renews o)
  have hfailed : o.InTurn s seen (Session.enter s .failed _) :=
    hin'.enter ho (by decide) nofun
  have hstate := (Manners.state_enter s s .failed _).trans (if_pos ⟨rfl, hin'.known⟩)
  unfold Session.fail
  dsimp only
  split
  · exact ⟨hfailed.later (Rests.renews o (.of_eq (Nat.le_refl _) rfl fun _ => rfl)), hstate⟩
  · exact ⟨hfailed, hstate⟩

end Turn

/-- The session is to run on this client, but may not be started yet. -/
theorem InTurn.runOn {c : Nat} (hin : o.InTurn s seen h) (hc : o.clients.length ≤ c)
    (capabilities : ServerCapabilities) :
    o.InTurn s seen (Manners.runOn s c capabilities h) ∧
      (Manners.runOn s c capabilities h).speaker s = some c := by
  refine ⟨hin.later ?_, (Manners.speaker_runOn ..).trans (if_pos ⟨rfl, hin.known⟩)⟩
  constructor
  case clients => exact Nat.le_refl _
  case turns => exact fun _ => .refl _
  case begun =>
    intro t ht
    rwa [Manners.state_runOn]
  case underway =>
    exact fun t hstart =>
      ⟨hstart.began, (Manners.state_runOn ..).symm.trans hstart.state, hstart.turn⟩
  case runs =>
    intro t d hruns
    obtain ⟨hstate, hspeaker⟩ := runs_iff.mp hruns
    rw [Manners.state_runOn] at hstate
    rw [Manners.speaker_runOn] at hspeaker
    split at hspeaker
    · exact .inr (.inl (Option.some.inj hspeaker ▸ hc))
    · exact .inl (runs_iff.mpr ⟨hstate, hspeaker⟩)

/-- Somebody comes for a lock or leaves one. -/
theorem Renewing.setLock (ho : ∀ s, (o.lock (.lifecycle s)).Ordered)
    (hrenewing : o.Renewing seen h) {n : LockName} {l : Lock}
    (hfollows : (h.lock n).Follows (fun _ => True) l) : o.Renews h (h.setLock n l) := by
  have hlocks : ∀ s, (h.lock (.lifecycle s)).Follows (fun _ => True)
      ((h.setLock n l).lock (.lifecycle s)) := fun s => by
    rw [lock_setLock]
    split
    · rename_i heq
      rwa [heq]
    · exact .refl _
  constructor
  case clients => exact Nat.le_refl _
  case turns => exact hlocks
  case begun => exact fun _ => id
  case underway =>
    rintro s ⟨hbegan, hstate, t, hholder, ht⟩
    refine ⟨hbegan, hstate, t, hholder, ((hlocks s).mem t ht).resolve_right fun hlate => ?_⟩
    exact absurd (Nat.le_trans (hrenewing.next s) hlate)
      (Nat.not_le_of_lt ((ho s).holder_lt_next hholder))
  case runs => exact fun _ _ => .inl

end Hub

/-! ## Restarting a session -/

section Reaching

open Pact

variable {o : Hub} {s : Nat} {seen : List Nat} {α : Type}

namespace Session

/-- An attempt at a session that did not succeed left it failed. -/
def Settled (s : Nat) (r : Except HubError Unit) (h : Hub) : Prop :=
  r ≠ .ok () → (h.session s).state = .failed

section Turn

variable (ho : ∀ s, (o.lock (.lifecycle s)).Ordered)

include ho

end Turn

end Session

/-! ## One after the other -/

namespace Hub

/-- The first of these sessions were renewed: all of them, or those up to one that failed. -/
def RenewedUntilFailure (o : Hub) (sessions : List Nat) (h : Hub) : Prop :=
  ∃ seen unseen, sessions = seen ++ unseen ∧ (∀ s ∈ seen, o.IsRenewed s h) ∧
    (unseen ≠ [] → ∃ s, seen.getLast? = some s ∧ (h.session s).state = .failed)

theorem RenewedUntilFailure.cons {h : Hub} {sessions : List Nat}
    (hsessions : o.RenewedUntilFailure sessions h) (hs : o.IsRenewed s h) :
    o.RenewedUntilFailure (s :: sessions) h := by
  obtain ⟨seen, unseen, rfl, hseen, hfailed⟩ := hsessions
  refine ⟨s :: seen, unseen, rfl, List.forall_mem_cons.mpr ⟨hs, hseen⟩, fun hunseen => ?_⟩
  obtain ⟨last, hlast, hstate⟩ := hfailed hunseen
  exact ⟨last, by rw [List.getLast?_cons, hlast]; rfl, hstate⟩

end Hub

end Reaching

namespace Hub

variable {h : Hub} {id : String} {settings enabled : Bool}

end Hub

namespace Following

open Lifecycle (Action run)
open Hub (onClient onRegistry)

end Following

end LanguageHub
