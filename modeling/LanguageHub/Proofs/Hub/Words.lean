import LanguageHub.Proofs.Hub.Outline
import LanguageHub.Proofs.Hub.Tickets

/-!
# The words of a client

What a client writes on its link without being asked is its words: requests and notifications, in
the order in which they were begun. A frame that goes on adds none, and answers to the server's
requests are none.
-/

namespace LanguageHub

namespace Message

def isWord : Message → Bool
  | response _ => false
  | _ => true

/-- What a word says or asks for. -/
def method? : Message → Option String
  | request r => some r.method
  | notification n => some n.method
  | response _ => none

def initialized : Message := .ofNotification "initialized" (.mkObj [])

/-- One of the two messages of the handshake. -/
def IsGreeting : Message → Prop
  | request r => r.method = "initialize"
  | notification n => n.method = "initialized"
  | response _ => False

def IsFarewell : Message → Prop
  | request r => r.method = "shutdown"
  | _ => False

instance : DecidablePred IsFarewell
  | request r => inferInstanceAs (Decidable (r.method = "shutdown"))
  | notification _ | response _ => inferInstanceAs (Decidable False)

structure IsPlain (m : Message) : Prop where
  word : m.isWord = true
  greeting : ¬ m.IsGreeting
  farewell : ¬ m.IsFarewell

theorem isPlain_request {r : Request} (hgreeting : r.method ≠ "initialize")
    (hfarewell : r.method ≠ "shutdown") : (Message.request r).IsPlain :=
  ⟨rfl, hgreeting, hfarewell⟩

theorem isPlain_ofNotification {method : String} (hmethod : method ≠ "initialized")
    (params : Json) : (Message.ofNotification method params).IsPlain :=
  ⟨rfl, hmethod, id⟩

end Message

namespace Link

def words (l : Link) : List Message := (l.outgoing.map (·.message)).filter (·.isWord)

theorem map_message_grow (count : Nat) (frames : List Outgoing) :
    (grow count frames).map (·.message) = frames.map (·.message) := by
  induction frames with
  | nil => rfl
  | cons o rest ih =>
    cases rest with
    | nil => rfl
    | cons o' rest => simpa [grow] using ih

/-- A word is begun, unless the link has failed, and later only more of it is written. -/
theorem words_write (l : Link) (m : Message) (size sent : Nat) :
    (l.write m size sent).2.words = l.words ++
      if sent = 0 ∧ m.isWord = true ∧ (l.write m size sent).1.isOk = true then [m] else [] := by
  cases hdue : StreamFault.due? l.writeFault with
  | some reason => simp [write, hdue, Except.isOk, Except.toBool]
  | none =>
    by_cases hsent : sent = 0
    · by_cases hword : m.isWord = true <;>
        simp [write, hdue, words, hsent, hword, Except.isOk, Except.toBool]
    · simp [write, hdue, words, hsent, map_message_grow]

end Link

namespace Hub

variable {h : Hub} {c d l s : Nat}

/-- What the client has said. -/
def said (h : Hub) (c : Nat) : List Message := (h.linkOf c).words

/-- The client of the session while it runs. -/
def speaker (h : Hub) (s : Nat) : Option Nat := (h.session s).running.map (·.client)

def Speaks (h : Hub) (c : Nat) : Prop := ∃ s, h.speaker s = some c

/-- Some session is started and runs on the client. -/
def Live (h : Hub) (c : Nat) : Prop := ∃ s, (h.session s).client? = .ok c

/-- No client has the link. -/
def Unused (h : Hub) (l : Nat) : Prop := ∀ c < h.clients.length, (h.client c).link ≠ l

/-- The queue of those that write to the client's server. -/
def queue (h : Hub) (c : Nat) : Lock := h.lock (.writer c)

theorem session_of_onSession (s s' : Nat) (f : Session → Session) : (h.onSession s f).session s' =
    if s = s' ∧ s' < h.sessions.length then f (h.session s') else h.session s' :=
  getD_modify ..

theorem client?_eq_ok {x : Session} {c : Nat} :
    x.client? = .ok c ↔ x.state = .started ∧ x.running.map (·.client) = some c := by
  unfold Session.client?
  split
  · rename_i hstate hrunning
    simp [hstate, hrunning]
  · rename_i hnot
    constructor
    · intro h
      cases h
    · rintro ⟨hstate, hrunning⟩
      obtain ⟨r, hr, -⟩ := Option.map_eq_some_iff.mp hrunning
      exact (hnot r hstate hr).elim

theorem live_iff : h.Live c ↔ ∃ s, (h.session s).state = .started ∧ h.speaker s = some c :=
  exists_congr fun _ => client?_eq_ok

theorem Live.speaks (hlive : h.Live c) : h.Speaks c := by
  obtain ⟨s, -, hspeaker⟩ := live_iff.mp hlive
  exact ⟨s, hspeaker⟩

/-- Only sessions differ, and what nobody says. -/
structure Resembles (h h' : Hub) : Prop where
  clients : h'.clients = h.clients
  links : h'.links = h.links
  locks : h'.locks = h.locks

namespace Resembles

variable {h' h'' : Hub} (hsame : h.Resembles h')

theorem trans (first : h.Resembles h') (second : h'.Resembles h'') : h.Resembles h'' :=
  ⟨second.clients.trans first.clients, second.links.trans first.links,
    second.locks.trans first.locks⟩

include hsame

theorem client (c : Nat) : h'.client c = h.client c := by
  rw [Hub.client, hsame.clients]
  rfl

theorem link (l : Nat) : h'.link l = h.link l := by
  rw [Hub.link, hsame.links]
  rfl

theorem queue (c : Nat) : h'.queue c = h.queue c := by
  rw [Hub.queue, Hub.lock, hsame.locks]
  rfl

theorem said (c : Nat) : h'.said c = h.said c := by
  rw [Hub.said, Hub.linkOf, hsame.client, hsame.link]
  rfl

end Resembles

end Hub

end LanguageHub
