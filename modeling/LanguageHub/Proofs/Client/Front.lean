import LanguageHub.Proofs.Client.Switchboard

/-!
# What a client's tasks change

Of the hub the tasks of a client see its ledger, whether it is open, the frames on its link, the
stream with its lock, and the cancellations. What one turn of a task may do to these is one of few
things, whatever else the hub holds.

Laws: every turn of every task is one of these.
-/

namespace LanguageHub

open Routine Client

namespace Switchboard

structure Front where
  ledger : Ledger
  isOpen : Bool
  /-- The frames that were begun on the client's link. -/
  frames : List Outgoing
  isWritable : Bool
  /-- Nothing can be written any more. -/
  isDue : Bool
  lock : Lock
  tracked : Nat → List (Nat × PendingRequest)
  isCancelled : Nat → Bool

/-- The client and its link are there, and somebody uses the client. -/
structure IsServed (c : Nat) (h : Hub) : Prop where
  client : c < h.clients.length
  link : (h.client c).link < h.links.length
  kept : (h.client c).isDropped = false

def front (c : Nat) (h : Hub) : Front where
  ledger := (h.client c).ledger
  isOpen := (h.client c).isOpen
  frames := (h.linkOf c).outgoing
  isWritable := (h.linkOf c).isWritable
  isDue := (StreamFault.due? (h.linkOf c).writeFault).isSome
  lock := h.lock (.writer c)
  tracked i := (h.cancellation i).tracked
  isCancelled i := h.isCancelled i

structure Shows (c : Nat) (h : Hub) (f : Front) : Prop where
  served : IsServed c h
  front : front c h = f

variable {c : Nat} {h : Hub} {f : Front}

/-! ## Changes of the hub -/

theorem IsServed.linkOf_fromLink {α : Type} (hserved : IsServed c h) (g : Link → α × Link) :
    (h.fromLink (h.client c).link g).2.linkOf c = (g (h.linkOf c)).2 := by
  change ((h.onLink (h.client c).link fun _ => (g (h.linkOf c)).2).link (h.client c).link) = _
  rw [Hub.link_onLink, if_pos ⟨rfl, hserved.link⟩]

namespace Shows

theorem of_served (hserved : IsServed c h) : Shows c h (Switchboard.front c h) := ⟨hserved, rfl⟩

/-- A change of the client that leaves its link to it. -/
theorem onClient (hs : Shows c h f) {g : Client → Client}
    (hlink : (g (h.client c)).link = (h.client c).link)
    (hholders : (g (h.client c)).holders = (h.client c).holders) :
    Shows c (h.onClient c g)
      { f with ledger := (g (h.client c)).ledger, isOpen := (g (h.client c)).isOpen } := by
  obtain ⟨⟨hclient, hwired, hkept⟩, rfl⟩ := hs
  have hsame : (h.onClient c g).client c = g (h.client c) := by
    rw [Hub.client_onClient, if_pos ⟨rfl, hclient⟩]
  have hlinkOf : (h.onClient c g).linkOf c = h.linkOf c := by
    unfold Hub.linkOf
    rw [hsame, hlink]
    rfl
  refine ⟨⟨?_, ?_, ?_⟩, ?_⟩
  · simpa [Hub.onClient] using hclient
  · rw [hsame, hlink]
    exact hwired
  · rw [hsame, isDropped, hholders]
    exact hkept
  · unfold Switchboard.front
    rw [hsame, hlinkOf]
    rfl

theorem fromClient {α : Type} (hs : Shows c h f) {g : Client → α × Client}
    (hlink : (g (h.client c)).2.link = (h.client c).link)
    (hholders : (g (h.client c)).2.holders = (h.client c).holders) :
    Shows c (h.fromClient c g).2
      { f with ledger := (g (h.client c)).2.ledger, isOpen := (g (h.client c)).2.isOpen } :=
  hs.onClient (g := fun _ => (g (h.client c)).2) hlink hholders

theorem fromLink {α : Type} (hs : Shows c h f) (g : Link → α × Link) :
    Shows c (h.fromLink (h.client c).link g).2
      { f with
        frames := (g (h.linkOf c)).2.outgoing
        isWritable := (g (h.linkOf c)).2.isWritable
        isDue := (StreamFault.due? (g (h.linkOf c)).2.writeFault).isSome } := by
  have hlinkOf := hs.served.linkOf_fromLink g
  obtain ⟨⟨hclient, hwired, hkept⟩, rfl⟩ := hs
  refine ⟨⟨hclient, ?_, hkept⟩, ?_⟩
  · change (h.client c).link < (h.links.modify _ _).length
    rw [List.length_modify]
    exact hwired
  · unfold Switchboard.front
    rw [hlinkOf]
    rfl

theorem setLock (hs : Shows c h f) (l : Lock) :
    Shows c (h.setLock (.writer c) l) { f with lock := l } := by
  obtain ⟨hserved, rfl⟩ := hs
  refine ⟨⟨hserved.client, hserved.link, hserved.kept⟩, ?_⟩
  have hlock : (h.setLock (.writer c) l).lock (.writer c) = l := by
    rw [Hub.lock_setLock, if_pos rfl]
  unfold Switchboard.front
  rw [hlock]
  rfl

theorem startTimer (hs : Shows c h f) (d : Duration) : Shows c (Hub.startTimer d h).2 f :=
  ⟨⟨hs.served.client, hs.served.link, hs.served.kept⟩, hs.front⟩

theorem enterLock (hs : Shows c h f) :
    Shows c (h.enterLock (.writer c)).2 { f with lock := f.lock.enter.2 } := by
  obtain rfl := hs.front
  exact hs.setLock _

theorem leaveLock (hs : Shows c h f) (ticket : Nat) :
    Shows c (h.leaveLock (.writer c) ticket) { f with lock := f.lock.leave ticket } := by
  obtain rfl := hs.front
  exact hs.setLock _

end Shows

/-- The requests under way without the one with this mark. -/
def Front.unmark (mark : Option (Nat × Nat)) (f : Front) : Front :=
  match mark with
  | none => f
  | some (i, token) =>
    { f with tracked := fun k =>
        if k = i then (f.tracked k).filter (·.1 != token) else f.tracked k }

namespace Front

variable (mark : Option (Nat × Nat)) (f : Front)

@[simp] theorem unmark_ledger : (f.unmark mark).ledger = f.ledger := by cases mark <;> rfl

@[simp] theorem unmark_isOpen : (f.unmark mark).isOpen = f.isOpen := by cases mark <;> rfl

@[simp] theorem unmark_frames : (f.unmark mark).frames = f.frames := by cases mark <;> rfl

@[simp] theorem unmark_isDue : (f.unmark mark).isDue = f.isDue := by cases mark <;> rfl

@[simp] theorem unmark_lock : (f.unmark mark).lock = f.lock := by cases mark <;> rfl

@[simp] theorem unmark_isCancelled : (f.unmark mark).isCancelled = f.isCancelled := by
  cases mark <;> rfl

end Front

/-- A request may be new among those under way, with this mark. -/
def Marks (mark : Option (Nat × Nat)) (r : PendingRequest)
    (before after : Nat → List (Nat × PendingRequest)) : Prop :=
  ∀ k, ∀ entry ∈ after k, entry ∈ before k ∨ mark = some (k, entry.1) ∧ entry.2 = r

namespace Shows

theorem unmark (hs : Shows c h f) (mark : Option (Nat × Nat)) :
    Shows c (Hub.unmark mark h) (f.unmark mark) := by
  obtain ⟨hserved, rfl⟩ := hs
  cases mark with
  | none => exact .of_served hserved
  | some entry =>
    obtain ⟨i, token⟩ := entry
    refine ⟨⟨hserved.client, hserved.link, hserved.kept⟩, ?_⟩
    have hsame : ∀ k, ((h.onCancellation i (·.untrack token)).cancellation k) =
        if i = k then (h.cancellation k).untrack token else h.cancellation k := by
      intro k
      unfold Hub.onCancellation Hub.cancellation
      rw [Hub.getD_modify]
      by_cases hk : k < h.cancellations.length
      · simp [hk]
      · simp [hk, Cancellation.new, Cancellation.untrack]
    have htracked : (fun k => ((h.onCancellation i (·.untrack token)).cancellation k).tracked) =
        fun k => if k = i then ((h.cancellation k).tracked).filter (·.1 != token)
          else (h.cancellation k).tracked := by
      funext k
      rw [hsame]
      by_cases hk : i = k
      · simp [hk, Cancellation.untrack]
      · simp [hk, Ne.symm hk]
    have hcancelled : (fun k => (h.onCancellation i (·.untrack token)).isCancelled k) =
        fun k => h.isCancelled k := by
      funext k
      unfold Hub.isCancelled
      rw [hsame]
      split <;> rfl
    change Switchboard.front c (h.onCancellation i (·.untrack token)) = _
    unfold Switchboard.front Front.unmark
    rw [htracked, hcancelled]
    rfl

theorem mark (hs : Shows c h f) (cancellation : Option Nat) (r : PendingRequest) :
    ∃ tracked, Marks (h.mark cancellation r).1 r f.tracked tracked ∧
      Shows c (h.mark cancellation r).2 { f with tracked } := by
  obtain ⟨hserved, rfl⟩ := hs
  cases cancellation with
  | none => exact ⟨_, fun _ _ hentry => .inl hentry, .of_served hserved⟩
  | some i =>
    have hsame : ∀ k, ((h.mark (some i) r).2.cancellation k) =
        if i = k ∧ k < h.cancellations.length then ((h.cancellation i).track r).2
        else h.cancellation k := fun k => Hub.getD_modify ..
    refine ⟨fun k => ((h.mark (some i) r).2.cancellation k).tracked, fun k entry hentry => ?_,
      ⟨hserved.client, hserved.link, hserved.kept⟩, ?_⟩
    · dsimp only at hentry
      rw [hsame] at hentry
      split at hentry
      · rename_i hk
        obtain rfl := hk.1
        rcases List.mem_append.mp hentry with hold | hnew
        · exact .inl hold
        · obtain rfl := List.mem_singleton.mp hnew
          exact .inr ⟨rfl, rfl⟩
      · exact .inl hentry
    · have hcancelled : (fun k => (h.mark (some i) r).2.isCancelled k) =
          fun k => h.isCancelled k := by
        funext k
        unfold Hub.isCancelled
        rw [hsame]
        split
        · rename_i hk
          rw [← hk.1]
          rfl
        · rfl
      unfold Switchboard.front
      rw [hcancelled]
      rfl

end Shows

/-! ## Turns -/

/-- The frames with more of a message accepted, of which the first `sent` bytes are there. -/
def extend (m : Message) (size sent count : Nat) (frames : List Outgoing) : List Outgoing :=
  if sent = 0 then frames ++ [⟨m, size, count⟩] else Link.grow count frames

/-- As much is accepted at once. -/
def Accepts (size sent count : Nat) : Prop := sent < size → 0 < count ∧ sent + count ≤ size

/-- What a writer's turn may do. -/
inductive Writes (w : Writing) (f : Front) : Front → Writing ⊕ Except HubError Unit → Prop
  | queues (hnew : w.sent? = none) (hheld : f.lock.isHeldBy w.ticket = false) :
      Writes w f f (.inl w)
  | begins (hnew : w.sent? = none) (hheld : f.lock.isHeldBy w.ticket = true) :
      Writes w f f (.inl { w with sent? := some (w.size - 1, 0) })
  | waits {rounds sent : Nat} (hsent : w.sent? = some (rounds, sent))
      (hfull : f.isWritable = false) :
      Writes w f f (.inl w)
  | fails {rounds sent : Nat} {reason : String} (hsent : w.sent? = some (rounds, sent))
      (hdue : f.isDue = true) :
      Writes w f { f with lock := f.lock.leave w.ticket } (.inr (.error (.transport reason)))
  | grows {rounds sent count : Nat} {isWritable isDue : Bool}
      (hsent : w.sent? = some (rounds + 1, sent)) (hdue : f.isDue = false)
      (hcount : Accepts w.size sent count) (hmore : sent + count < w.size) :
      Writes w f { f with frames := extend w.message w.size sent count f.frames, isWritable, isDue }
        (.inl { w with sent? := some (rounds, sent + count) })
  | ends {rounds sent count : Nat} {isWritable isDue : Bool}
      (hsent : w.sent? = some (rounds, sent)) (hdue : f.isDue = false)
      (hcount : Accepts w.size sent count) (hlast : w.size ≤ sent + count ∨ rounds = 0) :
      Writes w f
        { f with
          frames := extend w.message w.size sent count f.frames
          isWritable
          isDue
          lock := f.lock.leave w.ticket }
        (.inr (.ok ()))

theorem acceptable_of_isWritable {l : Link} (hready : l.isWritable = true)
    (hdue : StreamFault.due? l.writeFault = none) (size sent : Nat) :
    Accepts size sent (l.acceptable (size - sent)) := by
  intro hsent
  cases hroom : l.room with
  | none =>
    simp only [Link.acceptable, hroom]
    omega
  | some room =>
    have hne : room ≠ 0 := by
      rintro rfl
      simp [Link.isWritable, hdue, hroom] at hready
    simp only [Link.acceptable, hroom]
    omega

theorem writes_go (hs : Shows c h f) (w : Writing) :
    ∃ f', Shows c (w.go c h).1 f' ∧ Writes w f f' (w.go c h).2 := by
  obtain rfl := hs.front
  cases hsent : w.sent? with
  | none =>
    simp only [Writing.go, hsent]
    split
    · rename_i hheld
      exact ⟨_, hs, .begins hsent hheld⟩
    · rename_i hheld
      exact ⟨_, hs, .queues hsent (Bool.eq_false_iff.mpr hheld)⟩
  | some left =>
    obtain ⟨rounds, sent⟩ := left
    simp only [Writing.go, hsent]
    split
    · rename_i hready
      -- A fault of the link shows with the first byte written to it, and the ticket is given back.
      have hwritten := hs.fromLink (·.write w.message w.size sent)
      cases hdue : StreamFault.due? (h.linkOf c).writeFault with
      | some reason =>
        have hwrite := Link.write_of_due w.message w.size sent hdue
        have hcount : (h.fromLink (h.client c).link (·.write w.message w.size sent)).1 =
            .error (.transport reason) := congrArg Prod.fst hwrite
        simp only [hwrite] at hwritten
        simp only [hcount]
        exact ⟨_, hwritten.leaveLock w.ticket, .fails hsent (by simp [front, hdue])⟩
      | none =>
        have hcount : (h.fromLink (h.client c).link (·.write w.message w.size sent)).1 =
            .ok ((h.linkOf c).acceptable (w.size - sent)) := by
          change ((h.linkOf c).write w.message w.size sent).1 = _
          simp only [Link.write, hdue]
        have hframes : ((h.linkOf c).write w.message w.size sent).2.outgoing = extend w.message
            w.size sent ((h.linkOf c).acceptable (w.size - sent)) (h.linkOf c).outgoing := by
          simp only [Link.write, hdue, extend]
        have haccepts := acceptable_of_isWritable hready hdue w.size sent
        have hworks : (front c h).isDue = false := by simp [front, hdue]
        rw [hframes] at hwritten
        simp only [hcount]
        by_cases hlast : w.size ≤ sent + (h.linkOf c).acceptable (w.size - sent) ∨ rounds = 0
        · rw [if_pos hlast]
          exact ⟨_, hwritten.leaveLock w.ticket, .ends hsent hworks haccepts hlast⟩
        · rw [if_neg hlast]
          obtain ⟨hless, hrounds⟩ := not_or.mp hlast
          obtain ⟨rounds, rfl⟩ := Nat.exists_eq_succ_of_ne_zero hrounds
          exact ⟨_, hwritten, .grows hsent hworks haccepts (Nat.lt_of_not_le hless)⟩
    · rename_i hfull
      exact ⟨_, hs, .waits hsent (Bool.eq_false_iff.mpr hfull)⟩

/-- Where the reader may come to with what it read. -/
inductive Hears (f : Front) : Front → Standing → Prop
  | ends (goesOn : Bool) : Hears f f (.ended (.listened goesOn))
  | hands (id : RequestId) (r : Response) (bodies : List String) (stop : Frame.Drained) :
      Hears f f (.handing id r bodies stop)
  | answers (r : Response) (bodies : List String) (stop : Frame.Drained) :
      Hears f { f with lock := f.lock.enter.2 }
        (.writing (.answer bodies stop) ⟨.response r, f.lock.next, none⟩)

/-- What may follow a message that was written, or could not be. -/
inductive Follows (f : Front) : Purpose → Except HubError Unit → Front → Standing → Prop
  | asked (q : Question) (id : RequestId) (mark : Option (Nat × Nat)) (deadline : Duration) :
      Follows f (.request q id mark) (.ok ()) f (.listening q id mark deadline)
  | failed (q : Question) (id : RequestId) (mark : Option (Nat × Nat)) (e : HubError) :
      Follows f (.request q id mark) (.error e)
        (Front.unmark mark { f with ledger := f.ledger.forget id }) (.ended (.asked (.error e)))
  | recalled (id : RequestId) (mark : Option (Nat × Nat)) (written : Except HubError Unit) :
      Follows f (.recalling id mark) written (f.unmark mark) (.ended (.asked (.error .cancelled)))
  | told (written : Except HubError Unit) : Follows f .notice written f (.ended (.told written))
  | answered {f' : Front} {st : Standing} (bodies : List String) (stop : Frame.Drained)
      (written : Except HubError Unit) (hnext : Hears f f' st) :
      Follows f (.answer bodies stop) written f' st

def Front.isWithdrawn (f : Front) (cancellation : Option Nat) : Bool :=
  cancellation.any f.isCancelled

/-- What a call comes to that does not wait any more. -/
def Front.outcome (f : Front) (id : RequestId) : Except HubError Json :=
  match List.lookup id f.ledger.answers with
  | some r => resultOf r
  | none => .error .connectionClosed

/-- What a task's turn may do. -/
inductive Progress (f : Front) : Standing → Front → Standing → Prop
  | refused (serverId : String) (q : Question) (id : RequestId) (hclosed : f.isOpen = false) :
      Progress f (.fresh serverId q id) f (.ended (.asked (.error .connectionClosed)))
  | enrols {serverId : String} {q : Question} {id : RequestId} {mark : Option (Nat × Nat)}
      {tracked : Nat → List (Nat × PendingRequest)} (hopen : f.isOpen = true)
      (hmark : Marks mark ⟨serverId, q.method, id⟩ f.tracked tracked) :
      Progress f (.fresh serverId q id)
        { f with ledger := f.ledger.register id, tracked, lock := f.lock.enter.2 }
        (.writing (.request q id mark) ⟨requestOf q id, f.lock.next, none⟩)
  | writes {purpose : Purpose} {w w' : Writing} {f' : Front} (hwrites : Writes w f f' (.inl w')) :
      Progress f (.writing purpose w) f' (.writing purpose w')
  | written {purpose : Purpose} {w : Writing} {f₁ f' : Front} {r : Except HubError Unit}
      {st : Standing} (hwrites : Writes w f f₁ (.inr r)) (hnext : Follows f₁ purpose r f' st) :
      Progress f (.writing purpose w) f' st
  | waits {q : Question} {id : RequestId} {mark : Option (Nat × Nat)} {deadline : Duration}
      (hpending : id ∈ f.ledger.pending) (hgoes : f.isWithdrawn q.cancellation = false) :
      Progress f (.listening q id mark deadline) f (.listening q id mark deadline)
  | recalls {q : Question} {id : RequestId} {mark : Option (Nat × Nat)} {deadline : Duration}
      (hwithdrawn : f.isWithdrawn q.cancellation = true) (hopen : f.isOpen = true) :
      Progress f (.listening q id mark deadline)
        { f with ledger := f.ledger.forget id, lock := f.lock.enter.2 }
        (.writing (.recalling id mark) ⟨recallOf id, f.lock.next, none⟩)
  | withdraws {q : Question} {id : RequestId} {mark : Option (Nat × Nat)} {deadline : Duration}
      (hwithdrawn : f.isWithdrawn q.cancellation = true) (hclosed : f.isOpen = false) :
      Progress f (.listening q id mark deadline)
        (Front.unmark mark { f with ledger := f.ledger.forget id })
        (.ended (.asked (.error .cancelled)))
  | collects {q : Question} {id : RequestId} {mark : Option (Nat × Nat)} {deadline : Duration}
      (hsettled : id ∉ f.ledger.pending) :
      Progress f (.listening q id mark deadline)
        (Front.unmark mark { f with ledger := f.ledger.collect id })
        (.ended (.asked (f.outcome id)))
  | expires {q : Question} {id : RequestId} {mark : Option (Nat × Nat)} {deadline : Duration}
      (hpending : id ∈ f.ledger.pending) :
      Progress f (.listening q id mark deadline)
        (Front.unmark mark { f with ledger := f.ledger.forget id })
        (.ended (.asked (.error (.requestTimeout q.method q.timeout))))
  | idles : Progress f .idle f .idle
  | reads {f' : Front} {st : Standing} (hnext : Hears f f' st) : Progress f .idle f' st
  | closes : Progress f .idle { f with isOpen := false } .closing
  | hands {id : RequestId} {r : Response} {bodies : List String} {stop : Frame.Drained}
      {f' : Front} {st : Standing}
      (hnext : Hears { f with ledger := f.ledger.deliver id r } f' st) :
      Progress f (.handing id r bodies stop) f' st
  | clears : Progress f .closing { f with ledger := { f.ledger with pending := [] } }
      (.ended (.listened false))
  | rests (e : Ending) : Progress f (.ended e) f (.ended e)

namespace Shows

/-- A change of the client that the tasks do not see. -/
theorem onClient_same (hs : Shows c h f) {g : Client → Client}
    (hlink : (g (h.client c)).link = (h.client c).link)
    (hholders : (g (h.client c)).holders = (h.client c).holders)
    (hledger : (g (h.client c)).ledger = (h.client c).ledger)
    (hopen : (g (h.client c)).isOpen = (h.client c).isOpen) : Shows c (h.onClient c g) f := by
  have hnext := hs.onClient hlink hholders
  obtain rfl := hs.front
  rw [hledger, hopen] at hnext
  exact hnext

theorem forget (hs : Shows c h f) (id : RequestId) :
    Shows c (h.onClient c (·.forget id)) { f with ledger := f.ledger.forget id } := by
  obtain rfl := hs.front
  exact hs.onClient (g := (·.forget id)) rfl rfl

theorem start (hs : Shows c h f) (m : Message) :
    Shows c (Writing.start c m h).1 { f with lock := f.lock.enter.2 } ∧
      (Writing.start c m h).2 = ⟨m, f.lock.next, none⟩ := by
  refine ⟨hs.enterLock, ?_⟩
  obtain rfl := hs.front
  exact congrArg (Writing.mk m · none) (Lock.enter_ticket _)

end Shows

theorem heed_same (x : Client) (n : Notification) :
    (x.heed n).link = x.link ∧ (x.heed n).holders = x.holders ∧ (x.heed n).ledger = x.ledger ∧
      (x.heed n).isOpen = x.isOpen := by
  unfold Client.heed
  split
  · split <;> exact ⟨rfl, rfl, rfl, rfl⟩
  · exact ⟨rfl, rfl, rfl, rfl⟩

theorem breakDown_same (x : Client) :
    x.breakDown.link = x.link ∧ x.breakDown.holders = x.holders ∧
      x.breakDown.ledger = x.ledger ∧ x.breakDown.isOpen = x.isOpen := by
  unfold breakDown
  split
  · rename_i hopen
    exact ⟨rfl, rfl, rfl, hopen.symm⟩
  · exact ⟨rfl, rfl, rfl, rfl⟩

theorem deliver_same (x : Client) (id : RequestId) (r : Response) :
    (x.deliver id r).link = x.link ∧ (x.deliver id r).holders = x.holders ∧
      (x.deliver id r).ledger = x.ledger.deliver id r ∧ (x.deliver id r).isOpen = x.isOpen := by
  unfold deliver Ledger.deliver
  have hpending : x.ledger.pending = x.pending := rfl
  rw [hpending]
  split <;> exact ⟨rfl, rfl, rfl, rfl⟩

theorem answerTo_response (folders : List WorkspaceFolder) (settings : Option Json) (r : Request) :
    ∃ answer, answerTo folders settings r = .response answer := by
  unfold answerTo
  split <;> exact ⟨_, rfl⟩

theorem hears_hearOut (hs : Shows c h f) (bodies : List String) (stop : Frame.Drained) :
    ∃ f', Shows c (hearOut c bodies stop h).1 f' ∧ Hears f f' (hearOut c bodies stop h).2 := by
  -- Every notice changes the client, so the hub is not the same for the next body.
  induction bodies generalizing h with
  | nil =>
    cases stop with
    | waiting rest => exact ⟨f, hs.onClient_same rfl rfl rfl rfl, .ends true⟩
    | cleared fault => exact ⟨f, hs.onClient_same rfl rfl rfl rfl, .ends true⟩
    | broken =>
      obtain ⟨hlink, hholders, hledger, hopen⟩ := breakDown_same (h.client c)
      exact ⟨f, hs.onClient_same hlink hholders hledger hopen, .ends false⟩
  | cons body rest ih =>
    unfold hearOut
    split
    · exact ih hs
    · split
      · exact ih hs
      · exact ⟨f, hs, .hands _ _ _ _⟩
    · rename_i r _
      obtain ⟨answer, hanswer⟩ := answerTo_response (h.client c).folders
        ((h.registry.object? (h.client c).definition).getD default).settings r
      obtain ⟨hstart, hwriting⟩ := hs.start (.response answer)
      dsimp only
      rw [hanswer, hwriting]
      exact ⟨_, hstart, .answers _ _ _⟩
    · rename_i n _
      obtain ⟨hlink, hholders, hledger, hopen⟩ := heed_same (h.client c) n
      exact ih (hs.onClient_same hlink hholders hledger hopen)

theorem follows_go (hs : Shows c h f) (purpose : Purpose) (written : Except HubError Unit) :
    ∃ f', Shows c (purpose.go c written h).1 f' ∧
      Follows f purpose written f' (purpose.go c written h).2 := by
  cases purpose with
  | request q id mark =>
    cases written with
    | error e => exact ⟨_, (hs.forget id).unmark mark, .failed _ _ _ _⟩
    | ok _ => exact ⟨_, hs.startTimer q.timeout, .asked _ _ _ _⟩
  | recalling id mark => exact ⟨_, hs.unmark mark, .recalled _ _ _⟩
  | notice => exact ⟨_, hs, .told _⟩
  | answer bodies stop =>
    obtain ⟨f', hnext, hhears⟩ := hears_hearOut hs bodies stop
    exact ⟨f', hnext, .answered _ _ _ hhears⟩

theorem isSettled_front (id : RequestId) :
    (h.client c).isSettled id = true ↔ id ∉ (front c h).ledger.pending := by
  simp [isSettled, front, ledger]

theorem progress_settle (hs : Shows c h f) {q : Question} {id : RequestId}
    (mark : Option (Nat × Nat)) {deadline : Duration} :
    ∃ f', Shows c (settle c q id mark h).1 f' ∧
      Progress f (.listening q id mark deadline) f' (settle c q id mark h).2 := by
  obtain rfl := hs.front
  unfold settle
  dsimp only
  split
  · rename_i hwithdrawn
    split
    · rename_i hopen
      obtain ⟨hstart, hwriting⟩ := (hs.forget id).start (recallOf id)
      rw [hwriting]
      exact ⟨_, hstart, .recalls hwithdrawn hopen⟩
    · rename_i hclosed
      exact ⟨_, (hs.forget id).unmark mark, .withdraws hwithdrawn (Bool.eq_false_iff.mpr hclosed)⟩
  · split
    · rename_i hsettled
      have hcollected := hs.fromClient (g := (·.collect id)) rfl rfl
      exact ⟨_, hcollected.unmark mark, .collects ((isSettled_front id).mp hsettled)⟩
    · rename_i hpending
      refine ⟨_, (hs.forget id).unmark mark, .expires ?_⟩
      by_contra habsent
      exact hpending ((isSettled_front id).mpr habsent)

theorem progress_enrol (hs : Shows c h f) (serverId : String) (q : Question) (id : RequestId) :
    ∃ f', Shows c (enrol c serverId q id h).1 f' ∧
      Progress f (.fresh serverId q id) f' (enrol c serverId q id h).2 := by
  obtain rfl := hs.front
  unfold enrol
  by_cases hopen : (h.client c).isOpen = true
  · have hregister : (h.client c).register id =
        (true, { h.client c with pending := (h.client c).pending ++ [id] }) := by
      unfold register
      rw [if_pos hopen]
    have hregistered := hs.fromClient (g := (·.register id)) (by rw [hregister]) (by rw [hregister])
    rw [hregister] at hregistered
    have htrue : (h.fromClient c (·.register id)).1 = true := congrArg Prod.fst hregister
    dsimp only
    rw [htrue, if_pos rfl]
    obtain ⟨tracked, hmark, hmarked⟩ := hregistered.mark q.cancellation ⟨serverId, q.method, id⟩
    obtain ⟨hstart, hwriting⟩ := hmarked.start (requestOf q id)
    rw [hwriting]
    exact ⟨_, hstart, .enrols hopen hmark⟩
  · have hregister : (h.client c).register id = (false, h.client c) := by
      unfold register
      rw [if_neg hopen]
    have hfalse : (h.fromClient c (·.register id)).1 = false := congrArg Prod.fst hregister
    dsimp only
    rw [hfalse, if_neg (by decide)]
    have hsame := hs.fromClient (g := (·.register id)) (by rw [hregister]) (by rw [hregister])
    rw [hregister] at hsame
    exact ⟨_, hsame, .refused _ _ _ (Bool.eq_false_iff.mpr hopen)⟩

theorem progress_readOn (hs : Shows c h f) :
    ∃ f', Shows c (readOn c h).1 f' ∧ Progress f .idle f' (readOn c h).2 := by
  obtain rfl := hs.front
  have hread := hs.fromLink (·.read readLimit)
  have hsame : ((h.linkOf c).read readLimit).2.outgoing = (h.linkOf c).outgoing ∧
      ((h.linkOf c).read readLimit).2.writeFault = (h.linkOf c).writeFault ∧
      ((h.linkOf c).read readLimit).2.room = (h.linkOf c).room := by
    unfold Link.read
    split <;> exact ⟨rfl, rfl, rfl⟩
  -- Reading leaves the way out as it is.
  obtain ⟨hframes, hfault, hroom⟩ := hsame
  rw [hframes, hfault, Link.isWritable, hfault, hroom] at hread
  unfold readOn
  dsimp only
  split
  · obtain ⟨f', hnext, hhears⟩ := hears_hearOut hread _ _
    exact ⟨f', hnext, .reads hhears⟩
  · exact ⟨_, hread.onClient (g := close) rfl rfl, .closes⟩

theorem progress_go (hs : Shows c h f) (st : Standing) :
    ∃ f', Shows c (st.go c h).1 f' ∧ Progress f st f' (st.go c h).2 := by
  cases st with
  | fresh serverId q id => exact progress_enrol hs serverId q id
  | writing purpose w =>
    obtain ⟨f₁, hwritten, hwrites⟩ := writes_go hs w
    simp only [Standing.go]
    cases hnext : (w.go c h).2 with
    | inl w' =>
      rw [hnext] at hwrites
      exact ⟨f₁, hwritten, .writes hwrites⟩
    | inr r =>
      rw [hnext] at hwrites
      obtain ⟨f', hfollows, hfollows'⟩ := follows_go hwritten purpose r
      exact ⟨f', hfollows, .written hwrites hfollows'⟩
  | listening q id mark deadline =>
    simp only [Standing.go]
    split
    · exact progress_settle hs mark
    · rename_i hwaits
      simp only [answered, Bool.or_eq_true, not_or] at hwaits
      obtain rfl := hs.front
      refine ⟨_, hs, .waits ?_ (Bool.eq_false_iff.mpr hwaits.1.1)⟩
      by_contra habsent
      exact hwaits.1.2 ((isSettled_front id).mpr habsent)
  | idle =>
    simp only [Standing.go]
    split
    · exact progress_readOn hs
    · exact ⟨f, hs, .idles⟩
  | handing id r bodies stop =>
    obtain rfl := hs.front
    obtain ⟨hlink, hholders, hledger, hopen⟩ := deliver_same (h.client c) id r
    have hdelivered := hs.onClient (g := (·.deliver id r)) hlink hholders
    rw [hledger, hopen] at hdelivered
    obtain ⟨f', hnext, hhears⟩ := hears_hearOut hdelivered bodies stop
    exact ⟨f', hnext, .hands hhears⟩
  | closing =>
    obtain rfl := hs.front
    exact ⟨_, hs.onClient (g := forgetAll) rfl rfl, .clears⟩
  | ended e => exact ⟨f, hs, .rests e⟩

inductive Begins (f : Front) : Errand → Front → Standing → Prop
  | refused (q : Question) (hclosed : f.isOpen = false) :
      Begins f (.ask q) f (.ended (.asked (.error .connectionClosed)))
  | withdrawn (q : Question) (hopen : f.isOpen = true)
      (hwithdrawn : f.isWithdrawn q.cancellation = true) :
      Begins f (.ask q) f (.ended (.asked (.error .cancelled)))
  | takes (q : Question) (serverId : String) (hopen : f.isOpen = true) :
      Begins f (.ask q) { f with ledger := f.ledger.take }
        (.fresh serverId q (.number f.ledger.next))
  | tells (method : String) (params : Json) (hopen : f.isOpen = true) :
      Begins f (.tell method params) { f with lock := f.lock.enter.2 }
        (.writing .notice ⟨.ofNotification method params, f.lock.next, none⟩)
  | keepsSilent (method : String) (params : Json) (hclosed : f.isOpen = false) :
      Begins f (.tell method params) f (.ended (.told (.error .connectionClosed)))
  | listens : Begins f .listen f .idle

theorem begins_begin (hs : Shows c h f) (e : Errand) :
    ∃ f', Shows c (e.begin c h).1 f' ∧ Begins f e f' (e.begin c h).2 := by
  obtain rfl := hs.front
  cases e with
  | ask q =>
    simp only [Errand.begin]
    split
    · rename_i hclosed
      exact ⟨_, hs, .refused q hclosed⟩
    · rename_i hopen
      have hopen' : (front c h).isOpen = true := by simpa [front] using hopen
      split
      · rename_i hwithdrawn
        exact ⟨_, hs, .withdrawn q hopen' hwithdrawn⟩
      · exact ⟨_, hs.fromClient (g := takeId) rfl rfl, .takes q _ hopen'⟩
  | tell method params =>
    simp only [Errand.begin]
    split
    · rename_i hopen
      obtain ⟨hstart, hwriting⟩ := hs.start (.ofNotification method params)
      rw [hwriting]
      exact ⟨_, hstart, .tells method params hopen⟩
    · rename_i hclosed
      exact ⟨_, hs, .keepsSilent method params (Bool.eq_false_iff.mpr hclosed)⟩
  | listen => exact ⟨_, hs, .listens⟩

end Switchboard

end LanguageHub
