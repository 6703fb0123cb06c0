import LanguageHub.Proofs.Document.Recording
import LanguageHub.Proofs.Hub.Scene
import LanguageHub.Proofs.Routine.Company
import LanguageHub.Proofs.Wire.Conversation

/-!
# One document at a session that runs

A session runs, its connection works and stays, and any number of calls open one document
there, commit it and save it, while edits are shown to it at any time. Whoever has the send
lock of the document has the word. Between two speakers the server knows all that commits took.
-/

namespace LanguageHub

/-- Where a document is spoken about: the session, the document, the client through which the
session speaks and the client's link. -/
structure Site where
  session : Nat
  uri : String
  client : Nat
  link : Nat

namespace Site

variable (p : Site)

/-- The document's synchronizer, once it is connected. -/
def attached (h : Hub) : Option Nat := (h.session p.session).synchronizer? p.uri

/-- What the server was told of the document. -/
def heard (h : Hub) : List Message := Outgoing.heard p.uri (h.link p.link).outgoing

/-- The session runs, and what it writes arrives. -/
structure Works (h : Hub) : Prop where
  known : p.session < h.sessions.length
  started : (h.session p.session).state = .started
  speaker : (h.session p.session).running.map (·.client) = some p.client
  isOpen : (h.client p.client).isOpen = true
  link : (h.client p.client).link = p.link
  linked : p.link < h.links.length
  fault : (h.link p.link).writeFault = none

theorem Works.setLock {p : Site} {h : Hub} (hworks : p.Works h) (n : LockName) (l : Lock) :
    p.Works (h.setLock n l) :=
  ⟨hworks.known, hworks.started, hworks.speaker, hworks.isOpen, hworks.link, hworks.linked,
    hworks.fault⟩

/-- Nothing that is said about documents, and nobody's turn to speak, changes from one hub to
the other. -/
structure Quiet (h h' : Hub) : Prop where
  outline : h'.outline p.session = h.outline p.session
  fault : (h'.link p.link).writeFault = (h.link p.link).writeFault

variable {p} {h h' : Hub}

namespace Quiet

variable (hquiet : p.Quiet h h')

include hquiet

theorem attached : p.attached h' = p.attached h :=
  congrArg (fun x : Outline => List.lookup p.uri x.documents) hquiet.outline

theorem frames : (h'.link p.link).outgoing = (h.link p.link).outgoing :=
  congrFun (congrArg Outline.frames hquiet.outline) p.link

theorem heard : p.heard h' = p.heard h := by
  rw [Site.heard, Site.heard, hquiet.frames]

theorem lock (n : LockName) : h'.lock n = h.lock n :=
  congrFun (congrArg Outline.lock hquiet.outline) n

theorem synchronizers : h'.synchronizers = h.synchronizers :=
  congrArg Outline.synchronizers hquiet.outline

theorem works (hworks : p.Works h) : p.Works h' where
  known := by
    have hknown := congrArg Outline.isKnown hquiet.outline
    simp only [Hub.outline, decide_eq_decide] at hknown
    exact hknown.mpr hworks.known
  started := (congrArg Outline.state hquiet.outline).trans hworks.started
  speaker := (congrArg Outline.speaker hquiet.outline).trans hworks.speaker
  isOpen := (congrFun (congrArg Outline.isOpen hquiet.outline) p.client).trans hworks.isOpen
  link := (congrFun (congrArg Outline.linkOf hquiet.outline) p.client).trans hworks.link
  linked := Nat.lt_of_lt_of_eq hworks.linked (congrArg Outline.links hquiet.outline).symm
  fault := hquiet.fault.trans hworks.fault

end Quiet

end Site

def LockName.IsSend : LockName → Prop
  | .send _ => True
  | _ => False

namespace Parley

open DocumentNotice (Tells)

/-! ## The world -/

/-- The hub with what only proofs remember: for which task a ticket was given out, the queues of
changes that commits took, and the hooks that found the document connected. -/
structure World where
  hub : Hub
  owner : LockName → Nat → Nat
  taken : List (List TextChange)
  hooks : List Hook

/-- What a commit has taken from one hub to the other. -/
def drained (p : Site) (h h' : Hub) : List (List TextChange) :=
  match p.attached h with
  | none => []
  | some k =>
    if (h'.synchronizer k).version = (h.synchronizer k).version then []
    else [(h.synchronizer k).changes]

namespace World

variable (p : Site) (w : World)

/-- The world once a task has brought the hub to this. New tickets are the task's. -/
def move (me : Nat) (h : Hub) : World where
  hub := h
  owner n t := if (w.hub.lock n).next ≤ t ∧ t < (h.lock n).next then me else w.owner n t
  taken := w.taken ++ drained p w.hub h
  hooks := w.hooks

/-- The server knows all that commits took. -/
def Told : Prop := Tells p.uri w.taken (p.heard w.hub)

/-- What the server was told is a beginning of what there is to tell: nothing before the
opening, and after that all but the last commit at most. -/
def Follows : Prop :=
  (p.heard w.hub = [] ∧ w.taken = []) ∨
    ∃ said late, w.taken = said ++ late ∧ late.length ≤ 1 ∧ Tells p.uri said (p.heard w.hub)

structure Filed (k : Nat) : Prop where
  known : k < w.hub.synchronizers.length
  uri : (w.hub.synchronizer k).uri = p.uri
  version : (w.hub.synchronizer k).version = w.taken.length + 1
  collects : (w.hub.synchronizer k).Collects w.hooks w.taken

/-- What whoever comes to hold a lock finds. -/
def Tidy : LockName → Prop
  | .send k => p.attached w.hub = some k → w.Told p
  | _ => True

/-- What holds wherever all tasks wait. -/
structure Inv : Prop where
  works : p.Works w.hub
  valid : ∀ n, (w.hub.lock n).Valid
  unused : ∀ k, w.hub.synchronizers.length ≤ k → (w.hub.lock (.send k)).isFree = true
  absent : p.attached w.hub = none → p.heard w.hub = [] ∧ w.taken = [] ∧ w.hooks = []
  filed : ∀ k, p.attached w.hub = some k → w.Filed p k
  follows : w.Follows p
  tidy : ∀ n, (w.hub.lock n).isFree = true → w.Tidy p n

structure Holds (me : Nat) (n : LockName) (t : Nat) : Prop where
  holder : (w.hub.lock n).holder = some t
  issued : t < (w.hub.lock n).next
  owner : w.owner n t = me

end World

/-! ## What tasks promise each other -/

section Promises

variable (p : Site) (w w' : World)

/-- What the others leave alone while someone holds a lock. -/
def Protected : LockName → Prop
  | .writer c => c = p.client → (w'.hub.link p.link).outgoing = (w.hub.link p.link).outgoing
  | .send k => p.attached w'.hub = some k →
    p.attached w.hub = some k ∧ p.heard w'.hub = p.heard w.hub ∧ w'.taken = w.taken
  | _ => True

/-- A ticket that holds its lock keeps it, and what the lock protects; a ticket that comes to
hold its lock finds it tidy. -/
def Serves (n : LockName) (t : Nat) : Prop :=
  ((w.hub.lock n).holder = some t → (w'.hub.lock n).holder = some t ∧ Protected p w w' n) ∧
    ((w.hub.lock n).holder ≠ some t → (w'.hub.lock n).holder = some t → w'.Tidy p n)

/-- From one world to the other, as far as these locks go, the tickets of some are served, and
new tickets are given only to some. -/
structure Binds (minded : LockName → Prop) (whose giver : Nat → Prop) : Prop where
  attached : ∀ k, p.attached w.hub = some k → p.attached w'.hub = some k
  next : ∀ n, minded n → (w.hub.lock n).next ≤ (w'.hub.lock n).next
  owner : ∀ n t, minded n → t < (w.hub.lock n).next → w'.owner n t = w.owner n t
  gone : ∀ n t, minded n → t < (w.hub.lock n).next → t ∈ (w'.hub.lock n).tickets →
    t ∈ (w.hub.lock n).tickets
  given : ∀ n t, minded n → (w.hub.lock n).next ≤ t → t < (w'.hub.lock n).next →
    giver (w'.owner n t)
  serves : ∀ n t, minded n → t < (w.hub.lock n).next → whose (w.owner n t) → Serves p w w' n t

end Promises

variable {p : Site} {me k t : Nat} {n : LockName} {minded minded' : LockName → Prop}
  {whose giver : Nat → Prop} {w w' w'' : World} {h : Hub}

theorem Protected.refl (w : World) (n : LockName) : Protected p w w n := by
  cases n with
  | writer c => exact fun _ => rfl
  | send k => exact fun hk => ⟨hk, rfl, rfl⟩
  | _ => trivial

theorem Protected.trans (first : Protected p w w' n) (second : Protected p w' w'' n) :
    Protected p w w'' n := by
  cases n with
  | writer c => exact fun hc => (second hc).trans (first hc)
  | send k =>
    intro hk
    obtain ⟨hk', hheard', htaken'⟩ := second hk
    obtain ⟨hk'', hheard, htaken⟩ := first hk'
    exact ⟨hk'', hheard'.trans hheard, htaken'.trans htaken⟩
  | _ => trivial

theorem Protected.tidy (hprotected : Protected p w w' n) (htidy : w.Tidy p n) : w'.Tidy p n := by
  cases n with
  | send k =>
    intro hk
    obtain ⟨hk', hheard, htaken⟩ := hprotected hk
    have htold := htidy hk'
    rwa [World.Told, ← hheard, ← htaken] at htold
  | _ => trivial

theorem Serves.refl (w : World) (n : LockName) (t : Nat) : Serves p w w n t :=
  ⟨fun hheld => ⟨hheld, .refl w n⟩, fun hne hheld => absurd hheld hne⟩

theorem Serves.trans (first : Serves p w w' n t) (second : Serves p w' w'' n t) :
    Serves p w w'' n t := by
  refine ⟨fun hheld => ?_, fun hne hheld => ?_⟩
  · obtain ⟨hheld', hprotected⟩ := first.1 hheld
    obtain ⟨hheld'', hprotected'⟩ := second.1 hheld'
    exact ⟨hheld'', hprotected.trans hprotected'⟩
  -- The lock may have come to the ticket halfway: what it found there is protected since.
  · by_cases hbetween : (w'.hub.lock n).holder = some t
    · exact (second.1 hbetween).2.tidy (first.2 hne hbetween)
    · exact second.2 hbetween hheld

namespace Binds

theorem refl (w : World) : Binds p w w minded whose giver where
  attached _ hk := hk
  next _ _ := Nat.le_refl _
  owner _ _ _ _ := rfl
  gone _ _ _ _ hmem := hmem
  given _ _ _ hnew hold := absurd hold (Nat.not_lt_of_le hnew)
  serves n t _ _ _ := .refl w n t

theorem trans (first : Binds p w w' minded whose giver)
    (second : Binds p w' w'' minded whose giver) : Binds p w w'' minded whose giver where
  attached k hk := second.attached k (first.attached k hk)
  next n hn := Nat.le_trans (first.next n hn) (second.next n hn)
  owner n t hn ht := (second.owner n t hn (Nat.lt_of_lt_of_le ht (first.next n hn))).trans
    (first.owner n t hn ht)
  gone n t hn ht hmem := first.gone n t hn ht
    (second.gone n t hn (Nat.lt_of_lt_of_le ht (first.next n hn)) hmem)
  given n t hn hnew hold := by
    -- The ticket was given out on the first half of the way or on the second.
    by_cases ht : t < (w'.hub.lock n).next
    · rw [second.owner n t hn ht]
      exact first.given n t hn hnew ht
    · exact second.given n t hn (Nat.le_of_not_lt ht) hold
  serves n t hn ht hwhose := (first.serves n t hn ht hwhose).trans
    (second.serves n t hn (Nat.lt_of_lt_of_le ht (first.next n hn))
      ((first.owner n t hn ht).symm ▸ hwhose))

theorem mono (hbinds : Binds p w w' minded whose giver) (hminded : ∀ n, minded' n → minded n) :
    Binds p w w' minded' whose giver where
  attached := hbinds.attached
  next n hn := hbinds.next n (hminded n hn)
  owner n t hn := hbinds.owner n t (hminded n hn)
  gone n t hn := hbinds.gone n t (hminded n hn)
  given n t hn := hbinds.given n t (hminded n hn)
  serves n t hn := hbinds.serves n t (hminded n hn)

/-- What a task guarantees to all others another one may rely on. -/
theorem rely_of_guarantee {you : Nat} (hbinds : Binds p w w' minded (· ≠ me) (· = me))
    (hne : you ≠ me) : Binds p w w' minded (· = you) (· ≠ you) where
  attached := hbinds.attached
  next := hbinds.next
  owner := hbinds.owner
  gone := hbinds.gone
  given n t hn hnew hold hyou := hne (hyou.symm.trans (hbinds.given n t hn hnew hold))
  serves n t hn ht howner := hbinds.serves n t hn ht (howner.symm ▸ hne)

theorem holds (hbinds : Binds p w w' minded (· = me) giver) (hn : minded n)
    (hw : w.Holds me n t) : w'.Holds me n t where
  holder := ((hbinds.serves n t hn hw.issued hw.owner).1 hw.holder).1
  issued := Nat.lt_of_lt_of_le hw.issued (hbinds.next n hn)
  owner := (hbinds.owner n t hn hw.issued).trans hw.owner

theorem protects (hbinds : Binds p w w' minded (· = me) giver) (hn : minded n)
    (hw : w.Holds me n t) : Protected p w w' n :=
  ((hbinds.serves n t hn hw.issued hw.owner).1 hw.holder).2

end Binds

abbrev Rely (p : Site) (me : Nat) (w w' : World) : Prop :=
  Binds p w w' (fun _ => True) (· = me) (· ≠ me)

/-- No task shows anything to the synchronizer. -/
structure Guarantee (p : Site) (me : Nat) (w w' : World) : Prop where
  binds : Binds p w w' (fun _ => True) (· ≠ me) (· = me)
  hooks : w'.hooks = w.hooks

theorem Guarantee.refl (w : World) : Guarantee p me w w := ⟨.refl w, rfl⟩

theorem Guarantee.trans (first : Guarantee p me w w') (second : Guarantee p me w' w'') :
    Guarantee p me w w'' := ⟨first.binds.trans second.binds, second.hooks.trans first.hooks⟩

/-- The tasks at the site. They start no jobs. -/
abbrev company (p : Site) : Company Job Hub where
  World := World
  state := World.hub
  move me w h := w.move p me h
  state_move _ _ _ := rfl
  allows _ _ _ := True
  inv := World.Inv p
  guarantee := Guarantee p
  rely := Rely p
  starts _ _ := False
  rely_refl _ w := .refl w
  rely_trans := .trans
  rely_of_guarantee hne _ _ _ hguarantee := hguarantee.binds.rely_of_guarantee hne

abbrev pact (p : Site) (me : Nat) : Pact Job Hub := (company p).pact me

end Parley

end LanguageHub
