import LanguageHub.Proofs.Client.Errands
import LanguageHub.Proofs.Wire.Messages
import LanguageHub.Proofs.Wire.Reading

/-!
# What a reader finds

A reader finds bytes: those on the link and those of a frame that is not whole yet. It deals with
the bodies in them one after the other, and its answers are made from what the client knows at that
moment. Nobody else takes from the bytes.

Laws: what is still to be dealt with is always the rest of what the server sent, and a turn of the
reader makes one answer at most, to the first request in it.
-/

namespace LanguageHub

open Routine Client

namespace Switchboard

/-- What a reader works with. -/
structure Inbox where
  buffer : Frame.Bytes
  incoming : Frame.Bytes
  hasEnded : Bool
  folders : List WorkspaceFolder
  settings? : Option Json

def Inbox.reply (x : Inbox) (r : Request) : Message := answerTo x.folders x.settings? r

def inbox (c : Nat) (h : Hub) : Inbox where
  buffer := (h.client c).buffer
  incoming := (h.linkOf c).incoming
  hasEnded := (h.linkOf c).hasEnded
  folders := (h.client c).folders
  settings? := ((h.registry.object? (h.client c).definition).getD default).settings

variable {c : Nat} {h : Hub}

/-! ## Turns of the others -/

/-- A client whose reader finds the same. -/
structure SameMail (x y : Client) : Prop where
  link : y.link = x.link
  buffer : y.buffer = x.buffer
  folders : y.folders = x.folders
  definition : y.definition = x.definition

theorem SameMail.refl (x : Client) : SameMail x x := ⟨rfl, rfl, rfl, rfl⟩

/-- What comes in on the link may differ. -/
theorem inbox_of_sameMail (h' : Hub) (hmail : SameMail (h.client c) (h'.client c))
    (hregistry : h'.registry = h.registry) :
    inbox c h' =
      { inbox c h with
        incoming := (h'.linkOf c).incoming
        hasEnded := (h'.linkOf c).hasEnded } := by
  unfold inbox
  rw [hmail.buffer, hmail.folders, hmail.definition, hregistry]

theorem inbox_onClient {g : Client → Client} (hg : SameMail (h.client c) (g (h.client c))) :
    inbox c (h.onClient c g) = inbox c h := by
  have hmail : SameMail (h.client c) ((h.onClient c g).client c) := by
    rw [Hub.client_onClient]
    split
    · exact hg
    · exact .refl _
  have hlink : (h.onClient c g).linkOf c = h.linkOf c := congrArg h.link hmail.link
  rw [inbox_of_sameMail _ hmail rfl, hlink]
  rfl

theorem inbox_fromClient {α : Type} {g : Client → α × Client}
    (hg : SameMail (h.client c) (g (h.client c)).2) :
    inbox c (h.fromClient c g).2 = inbox c h :=
  inbox_onClient (g := fun _ => (g (h.client c)).2) hg

theorem sameMail_deliver (x : Client) (id : RequestId) (r : Response) :
    SameMail x (x.deliver id r) := by
  unfold deliver
  split <;> exact ⟨rfl, rfl, rfl, rfl⟩

theorem sameMail_heed (x : Client) (n : Notification) : SameMail x (x.heed n) := by
  unfold heed
  split
  · split <;> exact ⟨rfl, rfl, rfl, rfl⟩
  · exact ⟨rfl, rfl, rfl, rfl⟩

theorem sameMail_register (x : Client) (id : RequestId) : SameMail x (x.register id).2 := by
  unfold register
  split <;> exact ⟨rfl, rfl, rfl, rfl⟩

theorem inbox_forget (id : RequestId) : inbox c (h.onClient c (·.forget id)) = inbox c h :=
  inbox_onClient ⟨rfl, rfl, rfl, rfl⟩

theorem inbox_unmark (mark : Option (Nat × Nat)) : inbox c (Hub.unmark mark h) = inbox c h := by
  cases mark <;> rfl

theorem inbox_mark (cancellation : Option Nat) (r : PendingRequest) :
    inbox c (h.mark cancellation r).2 = inbox c h := by
  cases cancellation <;> rfl

/-- A change of the link that leaves what comes in as it is. -/
theorem inbox_fromLink {α : Type} {g : Link → α × Link}
    (hincoming : (g (h.linkOf c)).2.incoming = (h.linkOf c).incoming)
    (hended : (g (h.linkOf c)).2.hasEnded = (h.linkOf c).hasEnded) :
    inbox c (h.fromLink (h.client c).link g).2 = inbox c h := by
  have hlink : (h.fromLink (h.client c).link g).2.linkOf c = (g (h.linkOf c)).2 ∨
      (h.fromLink (h.client c).link g).2.linkOf c = h.linkOf c := by
    change (h.onLink (h.client c).link fun _ => (g (h.linkOf c)).2).link (h.client c).link = _ ∨
      (h.onLink (h.client c).link fun _ => (g (h.linkOf c)).2).link (h.client c).link = _
    rw [Hub.link_onLink]
    split
    · exact .inl rfl
    · exact .inr rfl
  rw [inbox_of_sameMail (h.fromLink (h.client c).link g).2 (.refl _) rfl]
  rcases hlink with hlink | hlink
  · rw [hlink, hincoming, hended]
    rfl
  · rw [hlink]
    rfl

theorem write_incoming (l : Link) (m : Message) (size sent : Nat) :
    (l.write m size sent).2.incoming = l.incoming ∧
      (l.write m size sent).2.hasEnded = l.hasEnded := by
  unfold Link.write
  split <;> exact ⟨rfl, rfl⟩

theorem inbox_writing (w : Writing) : inbox c (w.go c h).1 = inbox c h := by
  have hwritten : ∀ sent, inbox c (h.fromLink (h.client c).link
      (·.write w.message w.size sent)).2 = inbox c h := fun sent =>
    inbox_fromLink (write_incoming _ _ _ _).1 (write_incoming _ _ _ _).2
  unfold Writing.go
  split
  · split <;> rfl
  · split
    · dsimp only
      split
      · exact hwritten _
      · split
        · exact hwritten _
        · exact hwritten _
    · rfl

theorem inbox_settle (q : Question) (id : RequestId) (mark : Option (Nat × Nat)) :
    inbox c (settle c q id mark h).1 = inbox c h := by
  unfold settle
  dsimp only
  split
  · split
    · exact inbox_forget id
    · exact (inbox_unmark mark).trans (inbox_forget id)
  · split
    · exact (inbox_unmark mark).trans (inbox_fromClient ⟨rfl, rfl, rfl, rfl⟩)
    · exact (inbox_unmark mark).trans (inbox_forget id)

theorem inbox_enrol (serverId : String) (q : Question) (id : RequestId) :
    inbox c (enrol c serverId q id h).1 = inbox c h := by
  have hregistered : inbox c (h.fromClient c (·.register id)).2 = inbox c h :=
    inbox_fromClient (sameMail_register _ id)
  unfold enrol
  dsimp only
  split
  · exact (inbox_mark q.cancellation _).trans hregistered
  · exact hregistered

/-- A task that is not a reader leaves to the reader what is there. -/
theorem inbox_go {st : Standing} (hst : st.isReading = false) :
    inbox c (st.go c h).1 = inbox c h := by
  cases st with
  | fresh serverId q id => exact inbox_enrol serverId q id
  | writing purpose w =>
    simp only [Standing.go]
    split
    · exact inbox_writing w
    · rename_i written _
      cases purpose with
      | request q id mark =>
        cases written with
        | error e => exact (inbox_unmark mark).trans ((inbox_forget id).trans (inbox_writing w))
        | ok _ => exact inbox_writing w
      | recalling id mark => exact (inbox_unmark mark).trans (inbox_writing w)
      | notice => exact inbox_writing w
      | answer bodies stop => cases hst
  | listening q id mark deadline =>
    simp only [Standing.go]
    split
    · exact inbox_settle q id mark
    · rfl
  | ended e => rfl
  | _ => cases hst

theorem inbox_begin (e : Errand) : inbox c (e.begin c h).1 = inbox c h := by
  cases e with
  | ask q =>
    simp only [Errand.begin]
    split
    · rfl
    · split
      · rfl
      · exact inbox_fromClient (g := takeId) ⟨rfl, rfl, rfl, rfl⟩
  | tell method params =>
    simp only [Errand.begin]
    split <;> rfl
  | listen => rfl

/-! ## Requests among the bodies -/

/-- A body that is a request which a client can read. -/
def Asks (body : String) (r : Request) : Prop := ∃ v, Json.read? body = some v ∧ IsRequest v r

/-- These requests are in these bodies, in this order, and no others. -/
inductive Asked : List String → List Request → Prop
  | nil : Asked [] []
  | asks {body : String} {r : Request} {bodies : List String} {rs : List Request}
      (hasks : Asks body r) (hrest : Asked bodies rs) : Asked (body :: bodies) (r :: rs)
  | silent {body : String} {bodies : List String} {rs : List Request}
      (hsilent : ∀ r, ¬ Asks body r) (hrest : Asked bodies rs) : Asked (body :: bodies) rs

def request? (body : String) : Option Request :=
  match (Json.read? body).bind Message.classify? with
  | some (.request r) => some r
  | _ => none

theorem request?_eq_some_iff {body : String} {r : Request} :
    request? body = some r ↔ Asks body r := by
  have hrequest : request? body = some r ↔
      (Json.read? body).bind Message.classify? = some (.request r) := by
    unfold request?
    split <;> simp_all
  simp only [hrequest, Option.bind_eq_some_iff, Message.classify?_eq_request_iff, Asks]

theorem asked_filterMap (bodies : List String) : Asked bodies (bodies.filterMap request?) := by
  induction bodies with
  | nil => exact .nil
  | cons body rest ih =>
    cases hbody : request? body with
    | none =>
      rw [List.filterMap_cons_none hbody]
      exact .silent (fun r hr => by simp [request?_eq_some_iff.mpr hr] at hbody) ih
    | some r =>
      rw [List.filterMap_cons_some hbody]
      exact .asks (request?_eq_some_iff.mp hbody) ih

/-! ## What is still to be dealt with -/

/-- What a reader has of the bodies that it read, and how the bytes went on behind them. -/
def Standing.held? : Standing → Option (List String × Frame.Drained)
  | .writing (.answer bodies stop) _ => some (bodies, stop)
  | .handing _ _ bodies stop => some (bodies, stop)
  | _ => none

/-- The answer that a reader writes. -/
def Standing.reply? : Standing → Option Message
  | .writing (.answer _ _) w => some w.message
  | _ => none

/-- The bodies that a reader will deal with when `future` comes behind what is there: those that
it has, and those in the bytes. At the end `part` is left over. -/
inductive Ahead (part future : Frame.Bytes) (x : Inbox) :
    List String → Option (List String × Frame.Drained) → Prop
  | unread {later : List String}
      (hdrain : Frame.drain (x.buffer ++ (x.incoming ++ future)) = (later, .waiting part))
      (hsettled : Frame.Settled x.buffer) : Ahead part future x later none
  | read {left later : List String} {rest : Frame.Bytes}
      (hdrain : Frame.drain (rest ++ (x.incoming ++ future)) = (later, .waiting part))
      (hsettled : Frame.Settled rest) :
      Ahead part future x (left ++ later) (some (left, .waiting rest))

/-- What a turn of the reader comes to: it deals with some of the bodies, and answers the first
request among them. -/
structure Deals (part future : Frame.Bytes) (later : List String) (x x' : Inbox)
    (st' : Standing) : Prop where
  stays : x'.hasEnded = x.hasEnded
  goesOn : st'.isReading = true ∨ ∃ goesOn, st' = .ended (.listened goesOn)
  ahead : ∃ dealt later', later = dealt ++ later' ∧ Ahead part future x' later' st'.held? ∧
    st'.reply?.toList = (dealt.filterMap request?).map x.reply

variable {part future : Frame.Bytes} {later : List String}

/-- A body that asks for nothing is dealt with. -/
theorem Deals.cons {body : String} {x x' : Inbox} {st' : Standing}
    (hbody : request? body = none) (h : Deals part future later x x' st') :
    Deals part future (body :: later) x x' st' where
  stays := h.stays
  goesOn := h.goesOn
  ahead := by
    obtain ⟨dealt, later', rfl, hahead, hreply⟩ := h.ahead
    refine ⟨body :: dealt, later', rfl, hahead, ?_⟩
    rw [List.filterMap_cons_none hbody]
    exact hreply

theorem inbox_setBuffer (hserved : c < h.clients.length) (rest : Frame.Bytes) :
    inbox c (h.onClient c fun x => { x with buffer := rest }) =
      { inbox c h with buffer := rest } := by
  have hsame : (h.onClient c fun x => { x with buffer := rest }).client c =
      { h.client c with buffer := rest } := by
    rw [Hub.client_onClient, if_pos ⟨rfl, hserved⟩]
  have hlink : (h.onClient c fun x => { x with buffer := rest }).linkOf c = h.linkOf c := by
    change h.link ((h.onClient c fun x => { x with buffer := rest }).client c).link = _
    rw [hsame]
    rfl
  unfold inbox
  rw [hlink, hsame]
  rfl

theorem deals_hearOut (hserved : c < h.clients.length) {bodies : List String}
    {stop : Frame.Drained} (hahead : Ahead part future (inbox c h) later (some (bodies, stop))) :
    Deals part future later (inbox c h) (inbox c (hearOut c bodies stop h).1)
      (hearOut c bodies stop h).2 := by
  obtain ⟨hdrain, hsettled⟩ | ⟨hdrain, hsettled⟩ := hahead
  rename_i more rest
  -- A notice changes the client, so the hub is not the same for the next body.
  induction bodies generalizing h with
  | nil =>
    have hinbox := inbox_setBuffer hserved rest
    refine ⟨?_, .inr ⟨true, rfl⟩, [], more, rfl, ?_, rfl⟩
    · change (inbox c (h.onClient c _)).hasEnded = _
      rw [hinbox]
    · change Ahead part future (inbox c (h.onClient c _)) more none
      rw [hinbox]
      exact .unread hdrain hsettled
  | cons body bodies ih =>
    unfold hearOut
    cases hbody : (Json.read? body).bind Message.classify? with
    | none => exact (ih hserved hdrain).cons (by simp [request?, hbody])
    | some m =>
      cases m with
      | response r =>
        have hnone : request? body = none := by simp [request?, hbody]
        dsimp only
        cases r.id with
        | none => exact (ih hserved hdrain).cons hnone
        | some id =>
          refine ⟨rfl, .inl rfl, [body], bodies ++ more, rfl, .read hdrain hsettled, ?_⟩
          rw [List.filterMap_cons_none hnone]
          rfl
      | request r =>
        have hsome : request? body = some r := by simp [request?, hbody]
        refine ⟨rfl, .inl rfl, [body], bodies ++ more, rfl, .read hdrain hsettled, ?_⟩
        rw [List.filterMap_cons_some hsome]
        rfl
      | notification n =>
        have hheeded := inbox_onClient (g := (·.heed n)) (sameMail_heed (h.client c) n)
        have hserved' : c < (h.onClient c (·.heed n)).clients.length := by
          simpa [Hub.onClient] using hserved
        have hrest := ih hserved' (by rw [hheeded]; exact hdrain)
        rw [hheeded] at hrest
        exact hrest.cons (by simp [request?, hbody])

/-- A read takes from the beginning of what came in, or nothing at all. -/
theorem inbox_read (hserved : IsServed c h) (limit : Nat) :
    let read := h.fromLink (h.client c).link (·.read limit)
    read.1 = .ended ∧ inbox c read.2 = inbox c h ∨
      ∃ received left, read.1 = .bytes received ∧ (inbox c h).incoming = received ++ left ∧
        inbox c read.2 = { inbox c h with incoming := left } := by
  intro read
  have hread : read.1 = ((h.linkOf c).read limit).1 := rfl
  rw [hread, inbox_of_sameMail read.2 (.refl _) rfl, hserved.linkOf_fromLink]
  unfold Link.read
  split
  · exact .inl ⟨rfl, rfl⟩
  · exact .inr ⟨_, _, rfl, (List.take_append_drop ..).symm, rfl⟩

theorem deals_readOn (hserved : IsServed c h) (hpart : Frame.Settled part)
    (hahead : Ahead part future (inbox c h) later none) :
    Deals part future later (inbox c h) (inbox c (readOn c h).1) (readOn c h).2 := by
  obtain ⟨hdrain, hsettled⟩ := hahead
  have hclient : (h.fromLink (h.client c).link (·.read readLimit)).2.client c = h.client c := rfl
  have hserved' : c < (h.fromLink (h.client c).link (·.read readLimit)).2.clients.length :=
    hserved.client
  have hcases := inbox_read hserved readLimit
  unfold readOn
  dsimp only at hcases ⊢
  rw [hclient]
  generalize h.fromLink (h.client c).link (·.read readLimit) = read at hcases hserved' ⊢
  rcases hcases with ⟨hended, hsame⟩ | ⟨received, left, hbytes, hall, hrest⟩
  · have hclosed := (inbox_onClient (g := close) ⟨rfl, rfl, rfl, rfl⟩).trans hsame
    rw [hended]
    refine ⟨by rw [hclosed], .inl rfl, [], later, rfl, ?_, rfl⟩
    rw [hclosed]
    exact .unread hdrain hsettled
  · -- What was read before the end of the stream leaves something to wait for.
    rw [hall, List.append_assoc, ← List.append_assoc] at hdrain
    obtain ⟨early, rest, hearly⟩ := Frame.waits_of_append hdrain
    obtain ⟨late, hlate, rfl, hrest'⟩ := Frame.drain_append hearly hdrain hpart
    have hdeals : Deals part future (early ++ late) (inbox c read.2) _ _ :=
      deals_hearOut hserved' (by rw [hrest]; exact .read hlate hrest')
    change Frame.drain ((h.client c).buffer ++ received) = _ at hearly
    rw [hbytes]
    dsimp only
    rw [hearly]
    obtain ⟨hstays, hgoesOn, hahead⟩ := hdeals
    rw [hrest] at hstays hahead
    exact ⟨hstays, hgoesOn, hahead⟩

end Switchboard

end LanguageHub
