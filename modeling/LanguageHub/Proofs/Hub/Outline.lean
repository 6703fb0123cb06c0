import LanguageHub.Proofs.Tables
import LanguageHub.Session.Documents

/-!
# The outline of a session

What is said about a document at one session depends on little of the hub: the state and the
documents of the session, the client through which it speaks, the clients and their links,
the synchronizers and the locks. Most changes of the hub leave this outline as it is.
-/

namespace LanguageHub

structure Outline where
  session : Nat
  /-- There is such a session. -/
  isKnown : Bool
  state : ServerState
  documents : List (String × Nat)
  /-- The client of the session while it runs. -/
  speaker : Option Nat
  /-- How many clients there are. -/
  clients : Nat
  linkOf : Nat → Nat
  isOpen : Nat → Bool
  links : Nat
  /-- The frames that were begun on each link. -/
  frames : Nat → List Outgoing
  /-- Nothing can be written to the link any more. -/
  isDue : Nat → Bool
  synchronizers : List Synchronizer
  lock : LockName → Lock

namespace Hub

/-- The outline of session `s`. -/
def outline (s : Nat) (h : Hub) : Outline where
  session := s
  isKnown := s < h.sessions.length
  state := (h.session s).state
  documents := (h.session s).documents
  speaker := (h.session s).running.map (·.client)
  clients := h.clients.length
  linkOf c := (h.client c).link
  isOpen c := (h.client c).isOpen
  links := h.links.length
  frames i := (h.link i).outgoing
  isDue i := (StreamFault.due? (h.link i).writeFault).isSome
  synchronizers := h.synchronizers
  lock := h.lock

variable {s : Nat} {h : Hub}

/-! ## Tables -/

theorem getD_modify {α : Type} (l : List α) (i j : Nat) (f : α → α) (d : α) :
    ((l.modify i f)[j]?).getD d =
      if i = j ∧ j < l.length then f (l[j]?.getD d) else l[j]?.getD d := by
  by_cases hj : j < l.length
  · by_cases hij : i = j <;> simp [hij, hj]
  · simp [hj]

theorem session_onSession (i : Nat) (f : Session → Session) (hi : i < h.sessions.length) :
    (h.onSession i f).session i = f (h.session i) := by
  simp [session, onSession, hi]

theorem client_onClient (c d : Nat) (f : Client → Client) : (h.onClient c f).client d =
    if c = d ∧ d < h.clients.length then f (h.client d) else h.client d :=
  getD_modify ..

theorem link_onLink (i j : Nat) (f : Link → Link) :
    (h.onLink i f).link j = if i = j ∧ j < h.links.length then f (h.link j) else h.link j := by
  unfold link onLink
  by_cases hj : j < h.links.length
  · by_cases hij : i = j <;> simp [hij, hj]
  · simp [hj]

theorem lookup_filter {α β : Type} [DecidableEq α] (l : List (α × β)) (a b : α) :
    List.lookup b (l.filter (·.1 != a)) = if b = a then none else List.lookup b l := by
  rw [lookup_filter_keys (· != a)]
  by_cases hb : b = a <;> simp [hb]

theorem lock_setLock (n n' : LockName) (l : Lock) :
    (h.setLock n l).lock n' = if n' = n then l else h.lock n' := by
  unfold lock setLock
  by_cases hn : n' = n
  · simp [hn]
  · have hne : (n' == n) = false := by simpa using hn
    simp only [List.lookup_cons, hne, lookup_filter, if_neg hn]

/-! ## Changes that the outline does not show -/

@[simp] theorem outline_emit (k : EventKind) : (h.emit k).outline s = h.outline s := rfl

@[simp] theorem outline_startTimer (d : Duration) :
    (startTimer d h).2.outline s = h.outline s := rfl

@[simp] theorem outline_onCancellation (i : Nat) (f : Cancellation → Cancellation) :
    (h.onCancellation i f).outline s = h.outline s := rfl

@[simp] theorem outline_finish (slot : Nat) (o : Outcome) :
    (h.finish slot o).outline s = h.outline s := rfl

theorem outline_onClient {c : Nat} {f : Client → Client} (hlink : ∀ x, (f x).link = x.link)
    (hopen : ∀ x, (f x).isOpen = x.isOpen) : (h.onClient c f).outline s = h.outline s := by
  have hlinks : (fun d => ((h.onClient c f).client d).link) = fun d => (h.client d).link := by
    funext d
    rw [client_onClient]
    split <;> simp [hlink]
  have hopens : (fun d => ((h.onClient c f).client d).isOpen) = fun d => (h.client d).isOpen := by
    funext d
    rw [client_onClient]
    split <;> simp [hopen]
  have hclients : (h.onClient c f).clients.length = h.clients.length := by simp [onClient]
  simp only [outline, hlinks, hopens, hclients]
  rfl

theorem outline_onLink {i : Nat} {f : Link → Link} (hout : ∀ l, (f l).outgoing = l.outgoing)
    (hfault : ∀ l, (f l).writeFault = l.writeFault) :
    (h.onLink i f).outline s = h.outline s := by
  have hframes : (fun j => ((h.onLink i f).link j).outgoing) = fun j => (h.link j).outgoing := by
    funext j
    rw [link_onLink]
    split <;> simp [hout]
  have hdue : (fun j => (StreamFault.due? ((h.onLink i f).link j).writeFault).isSome) =
      fun j => (StreamFault.due? (h.link j).writeFault).isSome := by
    funext j
    rw [link_onLink]
    split <;> simp [hfault]
  have hlinks : (h.onLink i f).links.length = h.links.length := by simp [onLink]
  simp only [outline, hframes, hdue, hlinks]
  rfl

theorem outline_fromClient {α : Type} {c : Nat} {f : Client → α × Client}
    (hlink : (f (h.client c)).2.link = (h.client c).link)
    (hopen : (f (h.client c)).2.isOpen = (h.client c).isOpen) :
    (h.fromClient c f).2.outline s = h.outline s := by
  have hlinks : (fun d => ((h.fromClient c f).2.client d).link) = fun d => (h.client d).link := by
    funext d
    unfold fromClient
    rw [client_onClient]
    split
    · rename_i hd
      rw [← hd.1]
      exact hlink
    · rfl
  have hopens : (fun d => ((h.fromClient c f).2.client d).isOpen) =
      fun d => (h.client d).isOpen := by
    funext d
    unfold fromClient
    rw [client_onClient]
    split
    · rename_i hd
      rw [← hd.1]
      exact hopen
    · rfl
  have hclients : (h.fromClient c f).2.clients.length = h.clients.length := by
    simp [fromClient, onClient]
  simp only [outline, hlinks, hopens, hclients]
  rfl

theorem outline_fromLink {α : Type} {i : Nat} {f : Link → α × Link}
    (hout : (f (h.link i)).2.outgoing = (h.link i).outgoing)
    (hfault : (f (h.link i)).2.writeFault = (h.link i).writeFault) :
    (h.fromLink i f).2.outline s = h.outline s := by
  have hframes : (fun j => ((h.fromLink i f).2.link j).outgoing) =
      fun j => (h.link j).outgoing := by
    funext j
    unfold fromLink
    rw [link_onLink]
    split
    · rename_i hj
      rw [← hj.1]
      exact hout
    · rfl
  have hdue : (fun j => (StreamFault.due? ((h.fromLink i f).2.link j).writeFault).isSome) =
      fun j => (StreamFault.due? (h.link j).writeFault).isSome := by
    funext j
    unfold fromLink
    rw [link_onLink]
    split
    · rename_i hj
      rw [← hj.1]
      exact congrArg (fun fault => (StreamFault.due? fault).isSome) hfault
    · rfl
  have hlinks : (h.fromLink i f).2.links.length = h.links.length := by simp [fromLink, onLink]
  simp only [outline, hframes, hdue, hlinks]
  rfl

/-! ## Changes that it shows -/

theorem outline_close (c : Nat) : (h.onClient c Client.close).outline s =
    { h.outline s with
      isOpen := fun d =>
        if c = d ∧ d < h.clients.length then false else (h.outline s).isOpen d } := by
  have hlinks : (fun d => ((h.onClient c Client.close).client d).link) =
      fun d => (h.client d).link := by
    funext d
    rw [client_onClient]
    split <;> rfl
  have hopens : (fun d => ((h.onClient c Client.close).client d).isOpen) =
      fun d => if c = d ∧ d < h.clients.length then false else (h.client d).isOpen := by
    funext d
    rw [client_onClient]
    split <;> rfl
  have hclients : (h.onClient c Client.close).clients.length = h.clients.length := by
    simp [onClient]
  simp only [outline, hlinks, hopens, hclients]
  rfl

/-- A link is this one now. -/
theorem outline_replaceLink {i : Nat} (hi : i < h.links.length) (l : Link) :
    (h.onLink i fun _ => l).outline s =
      { h.outline s with
        frames := fun j => if j = i then l.outgoing else (h.outline s).frames j
        isDue := fun j =>
          if j = i then (StreamFault.due? l.writeFault).isSome else (h.outline s).isDue j } := by
  have hframes : (fun j => ((h.onLink i fun _ => l).link j).outgoing) =
      fun j => if j = i then l.outgoing else (h.link j).outgoing := by
    funext j
    rw [link_onLink]
    by_cases hj : j = i
    · rw [if_pos ⟨hj.symm, hj ▸ hi⟩, if_pos hj]
    · rw [if_neg fun hand => hj hand.1.symm, if_neg hj]
  have hdue : (fun j => (StreamFault.due? ((h.onLink i fun _ => l).link j).writeFault).isSome) =
      fun j => if j = i then (StreamFault.due? l.writeFault).isSome
        else (StreamFault.due? (h.link j).writeFault).isSome := by
    funext j
    rw [link_onLink]
    by_cases hj : j = i
    · rw [if_pos ⟨hj.symm, hj ▸ hi⟩, if_pos hj]
    · rw [if_neg fun hand => hj hand.1.symm, if_neg hj]
  have hlinks : (h.onLink i fun _ => l).links.length = h.links.length := by simp [onLink]
  simp only [outline, hframes, hdue, hlinks]
  rfl

theorem outline_onSession {f : Session → Session} (hs : (h.outline s).isKnown = true) :
    (h.onSession s f).outline s =
      { h.outline s with
        state := (f (h.session s)).state
        documents := (f (h.session s)).documents
        speaker := (f (h.session s)).running.map (·.client) } := by
  have hs' : s < h.sessions.length := by simpa [outline] using hs
  have hlength : (h.onSession s f).sessions.length = h.sessions.length := by simp [onSession]
  simp only [outline, session_onSession s f hs', hlength]
  rfl

theorem getD_append_singleton {α : Type} (l : List α) (x d : α) (j : Nat) :
    ((l ++ [x])[j]?).getD d = if j = l.length then x else l[j]?.getD d := by
  rcases Nat.lt_trichotomy j l.length with hj | rfl | hj
  · simp [List.getElem?_append_left hj, Nat.ne_of_lt hj]
  · simp
  · have hout : (l ++ [x])[j]? = none := List.getElem?_eq_none (by simp; omega)
    simp [hout, Nat.ne_of_gt hj, List.getElem?_eq_none (Nat.le_of_lt hj)]

theorem link_eq (i : Nat) : h.link i = (h.links[i]?.getD ⟨"", "", .fresh⟩).link := by
  unfold link
  cases h.links[i]? <;> rfl

/-- There is one more link. -/
theorem outline_addLink (l : OpenedLink) (hl : l.link.outgoing = []) :
    ({ h with links := h.links ++ [l] } : Hub).outline s =
      { h.outline s with
        links := h.links.length + 1
        isDue := fun i => (h.outline s).isDue i ||
          (i == h.links.length && (StreamFault.due? l.link.writeFault).isSome) } := by
  have hlink : ∀ i, ({ h with links := h.links ++ [l] } : Hub).link i =
      if i = h.links.length then l.link else h.link i := by
    intro i
    rw [link_eq, link_eq, getD_append_singleton]
    split <;> rfl
  have hlast : h.link h.links.length = .fresh := by simp [link]
  have hframes : (fun i => (({ h with links := h.links ++ [l] } : Hub).link i).outgoing) =
      fun i => (h.link i).outgoing := by
    funext i
    rw [hlink]
    split
    · rename_i hi
      rw [hi, hlast, hl]
      rfl
    · rfl
  have hdue : (fun i => (StreamFault.due?
        (({ h with links := h.links ++ [l] } : Hub).link i).writeFault).isSome) =
      fun i => (StreamFault.due? (h.link i).writeFault).isSome ||
        (i == h.links.length && (StreamFault.due? l.link.writeFault).isSome) := by
    funext i
    rw [hlink]
    split
    · rename_i hi
      simp [hi, hlast, Link.fresh, StreamFault.due?]
    · rename_i hi
      simp [hi]
  simp only [outline, hframes, hdue, List.length_append, List.length_singleton]
  rfl

/-- There is one more client. -/
theorem outline_addClient (c : Client) (hc : c.isOpen = true) :
    ({ h with clients := h.clients ++ [c] } : Hub).outline s =
      { h.outline s with
        clients := h.clients.length + 1
        linkOf := fun d => if d = h.clients.length then c.link else (h.outline s).linkOf d
        isOpen := fun d => d == h.clients.length || (h.outline s).isOpen d } := by
  have hclient : ∀ d, ({ h with clients := h.clients ++ [c] } : Hub).client d =
      if d = h.clients.length then c else h.client d := fun d => getD_append_singleton ..
  have hlinks : (fun d => (({ h with clients := h.clients ++ [c] } : Hub).client d).link) =
      fun d => if d = h.clients.length then c.link else (h.client d).link := by
    funext d
    rw [hclient]
    split <;> rfl
  have hopens : (fun d => (({ h with clients := h.clients ++ [c] } : Hub).client d).isOpen) =
      fun d => d == h.clients.length || (h.client d).isOpen := by
    funext d
    rw [hclient]
    split
    · rename_i hd
      simp [hd, hc]
    · rename_i hd
      simp [hd]
  simp only [outline, hlinks, hopens, List.length_append, List.length_singleton]
  rfl

theorem outline_setLock (n : LockName) (l : Lock) : (h.setLock n l).outline s =
    { h.outline s with lock := fun n' => if n' = n then l else (h.outline s).lock n' } := by
  have hlocks : (h.setLock n l).lock = fun n' => if n' = n then l else h.lock n' :=
    funext fun n' => lock_setLock n n' l
  simp only [outline, hlocks]
  rfl

end Hub

end LanguageHub
