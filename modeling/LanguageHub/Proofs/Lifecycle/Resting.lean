import LanguageHub.Proofs.Lifecycle.Sparing
import LanguageHub.Proofs.Settings.Muting

/-!
# Leaving sessions in their states

Only a few steps of a start or a stop move a session from one state to another. Everything between
them leaves all sessions in their states, lets none of them run on another client and gives nobody
the turn at one, whatever happens around it.

Laws: programs that are made of such programs are such programs.
-/

namespace LanguageHub

open Routine (get gets modify modifyGet waitUntil)

namespace Hub

variable {h h' h'' : Hub} {s : Nat} {n : LockName}

/-- Every session stays in its state, and nobody comes for the turn at one or gives it up. -/
structure Rests (h h' : Hub) : Prop where
  clients : h.clients.length ≤ h'.clients.length
  state : ∀ s, (h'.session s).state = (h.session s).state
  speaker : ∀ s c, h'.speaker s = some c → h.speaker s = some c
  turn : ∀ s, h'.lock (.lifecycle s) = h.lock (.lifecycle s)

namespace Rests

theorem of_eq (hclients : h.clients.length ≤ h'.clients.length)
    (hsessions : h'.sessions = h.sessions)
    (hturn : ∀ s, h'.lock (.lifecycle s) = h.lock (.lifecycle s)) : h.Rests h' := by
  have hsession : ∀ s, h'.session s = h.session s := fun s => session_eq (by rw [hsessions])
  constructor
  case clients => exact hclients
  case state => exact fun s => by rw [hsession]
  case speaker => exact fun s c hs => by rwa [Hub.speaker, hsession] at hs
  case turn => exact hturn

theorem refl (h : Hub) : h.Rests h := of_eq (Nat.le_refl _) rfl fun _ => rfl

theorem trans (first : h.Rests h') (second : h'.Rests h'') : h.Rests h'' where
  clients := Nat.le_trans first.clients second.clients
  state s := (second.state s).trans (first.state s)
  speaker s c hs := first.speaker s c (second.speaker s c hs)
  turn s := (second.turn s).trans (first.turn s)

theorem onSession {f : Session → Session} (hstate : ∀ x, (f x).state = x.state)
    (hrunning : ∀ x, (f x).running = x.running ∨ (f x).running = none) :
    h.Rests (h.onSession s f) where
  clients := Nat.le_refl _
  state t := by
    rw [session_of_onSession]
    split
    · exact hstate _
    · rfl
  speaker _ _ := speaker_onSession_of_running hrunning
  turn _ := rfl

theorem onClient (c : Nat) (f : Client → Client) : h.Rests (h.onClient c f) :=
  of_eq (Nat.le_of_eq (List.length_modify ..).symm) rfl fun _ => rfl

theorem setLock (hn : ∀ s, n ≠ .lifecycle s) (l : Lock) : h.Rests (h.setLock n l) :=
  of_eq (Nat.le_refl _) rfl fun s => by rw [lock_setLock, if_neg (hn s).symm]

theorem runs (hrests : h.Rests h') {c : Nat} (hruns : h'.Runs s c) : h.Runs s c := by
  obtain ⟨hstate, hspeaker⟩ := runs_iff.mp hruns
  exact runs_iff.mpr ⟨(hrests.state s).symm.trans hstate, hrests.speaker s c hspeaker⟩

end Rests

end Hub

/-- The program leaves all sessions in their states, also when it is dropped. -/
abbrev Resting {α : Type} (p : Program α) : Prop := p.Conducts Hub.Rests fun _ => True

section Rules

variable {α β : Type} {p : Program α}

theorem resting_modifyGet {f : Hub → α × Hub} (hf : ∀ h, Hub.Rests h (f h).2) :
    Resting (modifyGet f : Program α) := ⟨hf, fun _ => trivial⟩

theorem resting_waitUntil (ready : Hub → Bool) : Resting (waitUntil ready : Program Unit) :=
  ⟨.refl, trivial⟩

theorem Resting.inLine {n : LockName} (hn : ∀ s, n ≠ .lifecycle s) {p : Nat → Program α}
    (hp : ∀ ticket, Resting (p ticket)) : Resting (Program.inLine n p) :=
  .bind (resting_modifyGet fun _ => .setLock hn _) fun ticket =>
    (hp ticket).ensuring (fun _ => .setLock hn _) .trans

theorem Resting.withLock {n : LockName} (hn : ∀ s, n ≠ .lifecycle s) (hp : Resting p) :
    Resting (Program.withLock n p) :=
  .inLine hn fun _ => .bind (resting_waitUntil _) fun _ => hp

end Rules

/-! ## Clients -/

namespace Client

variable {α : Type} {c : Nat}

end Client

/-! ## Sessions -/

namespace Session

variable {s : Nat}

end Session

end LanguageHub
