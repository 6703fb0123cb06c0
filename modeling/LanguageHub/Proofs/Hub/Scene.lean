import LanguageHub.Proofs.Document.Tracking
import LanguageHub.Proofs.Hub.Outline
import LanguageHub.Proofs.Hub.Tickets
import LanguageHub.Proofs.Wire.Conversation

/-!
# The scene around a document

A scene is the outline of a session together with the editor's text of one document and what
only proofs remember: whose the tickets in the locks are, and which clients the session has
spoken through. The session speaks with a server as long as it is started and the link to
the server is open in both directions.
-/

namespace LanguageHub

namespace Outgoing

/-- What the frames on a link have told its server of a document. -/
def heard (u : String) (frames : List Outgoing) : List Message :=
  ((frames.filter (·.isWhole)).map (·.message)).filter (·.isAbout u)

theorem heard_append (u : String) (first second : List Outgoing) :
    heard u (first ++ second) = heard u first ++ heard u second := by
  simp [heard]

theorem heard_begun (u : String) (m : Message) {size accepted : Nat} (h : accepted < size) :
    heard u [⟨m, size, accepted⟩] = [] := by
  have hpart : (accepted == size) = false := by
    simpa using Nat.ne_of_lt h
  simp [heard, isWhole, hpart]

theorem heard_whole (u : String) (m : Message) (size : Nat) :
    heard u [⟨m, size, size⟩] = if m.isAbout u then [m] else [] := by
  cases h : m.isAbout u <;> simp [heard, isWhole, h]

end Outgoing

namespace ServerState

/-- A session in this state has no documents. -/
def IsBare (state : ServerState) : Prop :=
  state = .notStarted ∨ state = .starting ∨ state = .initializing ∨ state = .stopped

/-- A session is in this state while nobody starts or stops it. -/
def IsAtRest (state : ServerState) : Prop :=
  state = .notStarted ∨ state = .started ∨ state = .stopped ∨ state = .failed

end ServerState

structure Scene extends Outline where
  /-- The editor's text of the document. -/
  text : Buffer
  phase : EditPhase
  /-- The calls take turns. -/
  alone : Bool
  /-- The task for which a ticket was given out. -/
  owner : LockName → Nat → Nat
  /-- The session has spoken through the client. -/
  spoken : Nat → Prop

namespace Scene

variable (u : String) (x : Scene)

/-! ## The document -/

/-- What the server behind a link has heard of the document. -/
def heard (i : Nat) : List Message := Outgoing.heard u (x.frames i)

def synchronizer (k : Nat) : Synchronizer := x.synchronizers[k]?.getD default

/-- The synchronizer is one of the document. -/
def Concerns (k : Nat) : Prop := k < x.synchronizers.length ∧ (x.synchronizer k).uri = u

/-- The synchronizer of the document, while it is connected. -/
def attached : Option Nat := List.lookup u x.documents

/-- The session can speak over the link. -/
def Front (i : Nat) : Prop :=
  x.state = .started ∧ ∃ c, x.speaker = some c ∧ x.isOpen c = true ∧ x.linkOf c = i ∧
    x.isDue i = false

/-- Nobody is about to tell a server of the document. -/
def Quiet : Prop := ∀ k, x.Concerns u k → (x.lock (.send k)).isFree = true

/-- The changes that are collected lead from the copy to the editor's text. -/
def Mirrors (k : Nat) (copy : Option Buffer) : Prop :=
  (x.synchronizer k).kind = .full ∨ (x.synchronizer k).kind = .incremental →
    ∃ b, copy = some b ∧ (x.synchronizer k).Tracks b x.text x.phase ∧
      (x.alone = false → (x.synchronizer k).Settled x.text x.phase)

/-- The server behind the link has the document open, as the synchronizer takes it to be. -/
def Told (i k : Nat) : Prop :=
  ∃ copy, DocumentNotice.Conversation (x.heard u i) (some (x.synchronizer k).version) copy ∧
    x.Mirrors k copy

/-- The server behind the link does not have the document open. -/
def Closed (i : Nat) : Prop := ∃ copy, DocumentNotice.Conversation (x.heard u i) none copy

/-! ## Good order -/

/-- What whoever comes to hold a lock finds. -/
def Tidy : LockName → Prop
  | .lifecycle s => s = x.session → x.state.IsAtRest
  | .send k => x.Concerns u k → ∀ i, x.Front i → x.attached u = some k → x.Told u i k
  | _ => True

/-- Clients speak over links of their own, and servers hear of the document only from clients
that the session has spoken through. -/
structure Wired : Prop where
  speaker : ∀ c, x.speaker = some c → x.spoken c
  spoken : ∀ c, x.spoken c → c < x.clients
  links : ∀ c, c < x.clients → x.linkOf c < x.links
  injective : ∀ c d, c < x.clients → d < x.clients → x.linkOf c = x.linkOf d → c = d
  bare : ∀ i, (∀ c, c < x.clients → x.linkOf c ≠ i) → x.frames i = []
  conforms : ∀ i, ∃ version copy, DocumentNotice.Conversation (x.heard u i) version copy
  voiced : ∀ i, x.heard u i ≠ [] → ∃ c, x.spoken c ∧ x.linkOf c = i

/-- A document has at most one synchronizer, and only a session that has started has
documents. -/
structure Filed : Prop where
  nodup : (x.documents.map (·.1)).Nodup
  synchronized : ∀ v k, (v, k) ∈ x.documents →
    k < x.synchronizers.length ∧ (x.synchronizer k).uri = v
  empty : x.state.IsBare → x.documents = []

/-- Of the synchronizers of the document at most one is in use, and while the document is
connected that is its own. -/
structure Locked : Prop where
  valid : ∀ n, (x.lock n).Valid
  inUse : ∀ k, (x.lock (.send k)).isFree = false → k < x.synchronizers.length
  single : ∀ k, x.attached u = some k → ∀ k', k' ≠ k → x.Concerns u k' →
    (x.lock (.send k')).isFree = true
  exclusive : ∀ k k', x.Concerns u k → x.Concerns u k' → k ≠ k' →
    (x.lock (.send k)).isFree = true ∨ (x.lock (.send k')).isFree = true
  quiet : x.alone = false → x.state = .started → x.attached u = none → x.Quiet u

/-- What holds wherever all tasks wait. -/
structure Inv : Prop where
  known : x.isKnown = true
  wired : x.Wired u
  filed : x.Filed
  locked : x.Locked u
  tidy : ∀ n, (x.lock n).isFree = true → x.Tidy u n
  closed : ∀ i, x.Front i → x.attached u = none → x.Quiet u → x.Closed u i
  /-- The synchronizer remembers the text after the last edit. -/
  recalled : ∀ k, x.attached u = some k → x.phase ≠ .tried →
    (x.synchronizer k).lastText = x.text.text

end Scene

/-! ## Changes of a scene -/

namespace Scene

variable (u : String) (x y : Scene)

/-- What no task ever does otherwise. -/
structure Always : Prop where
  session : y.session = x.session
  clients : x.clients ≤ y.clients
  linkOf : ∀ c, c < x.clients → y.linkOf c = x.linkOf c
  isOpen : ∀ c, y.isOpen c = true → x.isOpen c = true
  links : x.links ≤ y.links
  isDue : ∀ i, x.isDue i = true → y.isDue i = true
  synchronizers : x.synchronizers.length ≤ y.synchronizers.length
  synchronizer : ∀ k, k < x.synchronizers.length →
    (y.synchronizer k).uri = (x.synchronizer k).uri ∧
      (y.synchronizer k).settings = (x.synchronizer k).settings
  spoken : ∀ c, x.spoken c → y.spoken c
  next : ∀ n, (x.lock n).next ≤ (y.lock n).next
  owner : ∀ n t, t < (x.lock n).next → y.owner n t = x.owner n t
  /-- A ticket that was given back does not come again. -/
  gone : ∀ n t, t < (x.lock n).next → t ∈ (y.lock n).tickets → t ∈ (x.lock n).tickets

/-- What becomes of a session whose turn it is while its own call waits. -/
structure TurnKept : Prop where
  state : y.state = x.state ∨ x.state = .started ∧ y.state = .failed
  clients : y.clients = x.clients
  speaker : y.speaker = x.speaker ∨ y.speaker = none
  spoken : ∀ c, y.spoken c → x.spoken c
  attached : y.attached u = x.attached u ∨ y.attached u = none
  quiet : x.attached u = none → x.Quiet u → y.Quiet u

/-- What becomes of a synchronizer while who may speak of the document waits. -/
structure CopyKept (k : Nat) : Prop where
  version : (y.synchronizer k).version = (x.synchronizer k).version
  front : ∀ i, y.Front i → x.Front i ∧ (x.attached u = some k → y.attached u = some k)
  attached : y.attached u = some k → x.attached u = some k ∧
    ∀ copy, x.Mirrors k copy → y.Mirrors k copy

/-- What the others leave alone while someone holds a lock. -/
def Protected : LockName → Prop
  | .lifecycle s => s = x.session → TurnKept u x y
  | .writer c => c < x.clients → y.frames (x.linkOf c) = x.frames (x.linkOf c)
  | .send k => y.Concerns u k →
    x.Concerns u k ∧ (∀ i, y.heard u i = x.heard u i) ∧ CopyKept u x y k
  | .provider _ => True

/-- A ticket that holds its lock keeps it, and what the lock protects; a ticket that comes to
hold its lock finds it tidy. -/
def Serves (n : LockName) (t : Nat) : Prop :=
  ((x.lock n).holder = some t → (y.lock n).holder = some t ∧ Protected u x y n) ∧
    ((x.lock n).holder ≠ some t → (y.lock n).holder = some t → y.Tidy u n)

/-- What everybody else leaves alone while one call has its turn. -/
structure Still : Prop where
  heard : ∀ i, y.heard u i = x.heard u i
  synchronizers : y.synchronizers = x.synchronizers
  lock : ∀ k, y.lock (.send k) = x.lock (.send k)
  text : y.text = x.text
  phase : y.phase = x.phase
  documents : y.documents = x.documents ∨ y.documents = []
  front : ∀ i, y.Front i → x.Front i ∧ y.documents = x.documents
  state : y.state = .started → x.state = .started

end Scene

/-- Who acts: a task, which may be a call. -/
structure Actor where
  id : Nat
  isCall : Bool
  deriving DecidableEq, Repr

namespace Scene

variable (u : String) (a : Actor) (x y : Scene)

/-- What an actor's turn guarantees to everybody else. -/
structure Guarantee : Prop where
  always : Always x y
  tickets : ∀ n t, t < (x.lock n).next → x.owner n t ≠ a.id → Serves u x y n t
  /-- New tickets for send locks are the actor's. -/
  given : ∀ k t, (x.lock (.send k)).next ≤ t → t < (y.lock (.send k)).next →
    y.owner (.send k) t = a.id
  still : a.isCall = false → Still u x y
  alone : y.alone = x.alone
  text : y.text = x.text
  phase : y.phase = x.phase

/-- What an actor relies on while it waits. -/
structure Rely : Prop where
  always : Always x y
  tickets : ∀ n t, t < (x.lock n).next → x.owner n t = a.id → Serves u x y n t
  given : ∀ k t, (x.lock (.send k)).next ≤ t → t < (y.lock (.send k)).next →
    y.owner (.send k) t ≠ a.id
  still : a.isCall = true → x.alone = true → Still u x y
  alone : a.isCall = true → y.alone = x.alone

end Scene

end LanguageHub
