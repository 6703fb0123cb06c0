import LanguageHub.Proofs.Client.Inbox
import LanguageHub.Proofs.Client.Letters
import LanguageHub.Proofs.Client.Replies

/-!
# A server's requests and their answers

One reader at a time deals with what the server sends, while the calls and notices of the client
come and go. An answer is a message like any other: it waits for the stream, and the reader goes on
with the next body when it is written.

Laws: a turn of the reader answers the first request that it deals with, and no other task answers
anything; so in every run each request that can be read is answered once, with its id and in order,
as long as writing succeeds, and when nobody can go on all of them are answered.
-/

namespace LanguageHub

open Routine Client

/-- The message is an answer. -/
def Message.isResponse : Message → Bool
  | .response _ => true
  | _ => false

namespace Switchboard

/-! ## Answers among the frames -/

open Link (begun)

/-- The answers that the server got whole. -/
def answersIn (frames : List Outgoing) : List Message :=
  ((frames.filter (·.isWhole)).map (·.message)).filter (·.isResponse)

theorem answersIn_append (first second : List Outgoing) :
    answersIn (first ++ second) = answersIn first ++ answersIn second := by
  simp [answersIn]

theorem answersIn_begun {m : Message} {size sent : Nat} (hless : sent < size) :
    answersIn (begun m size sent) = [] := by
  unfold answersIn begun
  split
  · rfl
  · simp [Outgoing.isWhole, Nat.ne_of_lt hless]

theorem answersIn_whole (m : Message) :
    answersIn (begun m m.frame.length m.frame.length) = [m].filter (·.isResponse) := by
  rw [begun_whole]
  simp [answersIn, Outgoing.isWhole, whole]

/-- The message that a writer's turn completes. -/
def completed (w : Writing) : Writing ⊕ Except HubError Unit → List Message
  | .inr (.ok _) => [w.message]
  | _ => []

section Turns

variable {f f' : Front} {st st' : Standing} {w : Writing} {next : Writing ⊕ Except HubError Unit}

theorem sent_lt_size (hw : w.IsUnderway f) : w.sent < w.size := by
  cases hsent : w.sent? with
  | none => simpa [Writing.sent, hsent] using size_pos w
  | some left =>
    obtain ⟨-, hless, -⟩ := hw left.1 left.2 hsent
    simpa [Writing.sent, hsent] using hless

theorem answersIn_of_writes (h : Writes w f f' next) (hw : w.IsUnderway f) :
    answersIn f'.frames = answersIn f.frames ++ (completed w next).filter (·.isResponse) := by
  obtain ⟨F, hbefore, hafter⟩ := h.frames hw
  have hless := sent_lt_size hw
  rw [hbefore, hafter, answersIn_append, answersIn_append, answersIn_begun hless,
    List.append_nil]
  congr 1
  cases next with
  | inl w' =>
    refine answersIn_begun ?_
    cases h with
    | queues hnew hheld => exact hless
    | begins hnew hheld => exact size_pos w
    | waits hsent hfull => exact hless
    | grows hsent hdue hcount hmore => exact hmore
  | inr r =>
    cases r with
    | ok _ => exact answersIn_whole w.message
    | error e => exact answersIn_begun hless

/-- A task writes answers as long as it reads, and no others do. -/
def Voiced (_ : Front) (ps : List Place) : Prop :=
  ∀ p ∈ ps, ∀ w, p.standing.writing? = some w → w.message.isResponse = p.standing.isReading

theorem voiced_of_progress (h : Progress f st f' st')
    (hvoiced : ∀ w, st.writing? = some w → w.message.isResponse = st.isReading) {w' : Writing}
    (hw' : st'.writing? = some w') : w'.message.isResponse = st'.isReading := by
  have hhears : ∀ {f₁ f₂ st}, Hears f₁ f₂ st → st.writing? = some w' →
      w'.message.isResponse = st.isReading := by
    intro f₁ f₂ st hhears hst
    cases hhears with
    | answers r bodies stop =>
      obtain rfl := Option.some.inj hst
      rfl
    | _ => cases hst
  cases h with
  | enrols hopen hmark =>
    obtain rfl := Option.some.inj hw'
    rfl
  | @writes purpose w w₁ f' hwrites =>
    obtain rfl := Option.some.inj hw'
    rw [message_of_writes hwrites, hvoiced w rfl]
    cases purpose <;> rfl
  | written hwrites hnext =>
    cases hnext with
    | answered bodies stop written hnext => exact hhears hnext hw'
    | _ => cases hw'
  | recalls hwithdrawn hopen =>
    obtain rfl := Option.some.inj hw'
    rfl
  | reads hnext => exact hhears hnext hw'
  | hands hnext => exact hhears hnext hw'
  | _ => cases hw'

theorem kept_voiced : Kept (fun _ _ => True) Voiced where
  perm hperm h p hp := h p (hperm.mem_iff.mpr hp)
  go {_ _ _ _ p} _ _ h hgo q hq w hw := by
    rcases List.mem_cons.mp hq with rfl | hq
    · exact voiced_of_progress hgo (h p List.mem_cons_self) hw
    · exact h q (List.mem_cons_of_mem _ hq) w hw
  begin _ _ h _ hbegins q hq w hw := by
    rcases List.mem_cons.mp hq with rfl | hq
    · cases hbegins with
      | tells method params hopen =>
        obtain rfl := Option.some.inj hw
        rfl
      | _ => cases hw
    · exact h q hq w hw
  elsewhere _ h _ := h

/-- Whoever does not read never will. -/
theorem isReading_of_progress (h : Progress f st f' st') (hst : st.isReading = false) :
    st'.isReading = false := by
  cases h with
  | @writes purpose w w' f' hwrites => cases purpose <;> first | rfl | cases hst
  | written hwrites hnext =>
    cases hnext with
    | answered bodies stop written hnext => cases hst
    | _ => rfl
  | waits hpending hgoes => rfl
  | rests e => rfl
  | idles => cases hst
  | reads hnext => cases hst
  | closes => cases hst
  | hands hnext => cases hst
  | clears => cases hst
  | _ => rfl

/-- Who does not read writes no answers. -/
theorem answersIn_of_progress (h : Progress f st f' st') (hst : st.isReading = false)
    (hunderway : ∀ w, st.writing? = some w → w.IsUnderway f)
    (hvoiced : ∀ w, st.writing? = some w → w.message.isResponse = st.isReading) :
    answersIn f'.frames = answersIn f.frames := by
  cases hw : st.writing? with
  | none => rw [(h.link_same hw).1]
  | some w =>
    have hsilent : ∀ {f₁ next}, Writes w f f₁ next → answersIn f₁.frames = answersIn f.frames := by
      intro f₁ next hwrites
      rw [answersIn_of_writes hwrites (hunderway w hw), List.append_right_eq_self]
      refine List.filter_eq_nil_iff.mpr fun m hm => ?_
      have hm : m = w.message := by
        unfold completed at hm
        split at hm
        · exact List.mem_singleton.mp hm
        · cases hm
      rw [hm, hvoiced w hw, hst]
      exact Bool.false_ne_true
    cases h with
    | writes hwrites =>
      obtain rfl := Option.some.inj hw
      exact hsilent hwrites
    | written hwrites hnext =>
      obtain rfl := Option.some.inj hw
      rw [hnext.sameLink.frames]
      exact hsilent hwrites
    | _ => cases hw

end Turns

/-! ## The reader's turn -/

variable {c : Nat} {h : Hub} {part future : Frame.Bytes} {later : List String}

/-- What was answered before and what the reader is about to answer, after a turn of the reader. -/
structure Attended (part future : Frame.Bytes) (later : List String) (before : List Message)
    (x : Inbox) (f' : Front) (x' : Inbox) (st' : Standing) : Prop where
  stays : x'.hasEnded = x.hasEnded
  goesOn : st'.isReading = true ∨ ∃ goesOn, st' = .ended (.listened goesOn)
  ahead : ∃ dealt later', later = dealt ++ later' ∧ Ahead part future x' later' st'.held? ∧
    (dealt.filterMap request?).length ≤ 1 ∧
    answersIn f'.frames ++ st'.reply?.toList = before ++ (dealt.filterMap request?).map x.reply

/-- Nothing was dealt with. -/
theorem Attended.still {before : List Message} {f' : Front} {x : Inbox} {st' : Standing}
    (hst : st'.isReading = true ∨ ∃ goesOn, st' = .ended (.listened goesOn))
    (hahead : Ahead part future x later st'.held?)
    (hanswers : answersIn f'.frames ++ st'.reply?.toList = before) :
    Attended part future later before x f' x st' :=
  ⟨rfl, hst, [], later, rfl, hahead, Nat.zero_le _, by simpa using hanswers⟩

theorem Deals.attended {x x' : Inbox} {f' : Front} {st' : Standing}
    (h : Deals part future later x x' st') {before : List Message}
    (hanswers : answersIn f'.frames = before) :
    Attended part future later before x f' x' st' where
  stays := h.stays
  goesOn := h.goesOn
  ahead := by
    obtain ⟨dealt, later', hlater, hahead, hreply⟩ := h.ahead
    have hlength := congrArg List.length hreply
    rw [List.length_map] at hlength
    refine ⟨dealt, later', hlater, hahead, ?_, by rw [hanswers, hreply]⟩
    rw [← hlength]
    cases st'.reply? <;> simp

theorem frames_hearOut (hserved : IsServed c h) (bodies : List String) (stop : Frame.Drained) :
    (front c (hearOut c bodies stop h).1).frames = (front c h).frames := by
  obtain ⟨f', hshows, hhears⟩ := hears_hearOut (.of_served hserved) bodies stop
  rw [hshows.front, hhears.sameLink.frames]

/-- A turn that writes at an answer: the reader waits until it is written, and deals with what is
behind the request then. -/
theorem attended_answer (hserved : IsServed c h) {bodies : List String} {stop : Frame.Drained}
    {w : Writing} (hunderway : w.IsUnderway (front c h)) (hvoiced : w.message.isResponse = true)
    (hahead : Ahead part future (inbox c h) later (some (bodies, stop))) :
    let turn := (Standing.writing (.answer bodies stop) w).go c h
    (front c turn.1).isDue = false →
      Attended part future later (answersIn (front c h).frames ++ [w.message]) (inbox c h)
        (front c turn.1) (inbox c turn.1) turn.2 := by
  obtain ⟨f₁, hwritten, hwrites⟩ := writes_go (.of_served hserved) w
  have hanswers := answersIn_of_writes hwrites hunderway
  have hinbox := inbox_writing (c := c) (h := h) w
  intro turn hworks
  simp only [turn, Standing.go] at hworks ⊢
  generalize w.go c h = next at hwritten hwrites hanswers hinbox hworks ⊢
  obtain ⟨h', w' | written⟩ := next
  · have hnone : completed w (.inl w') = [] := rfl
    dsimp only at hanswers ⊢
    rw [hinbox, hwritten.front]
    refine .still (.inl rfl) hahead ?_
    rw [hanswers, hnone, List.filter_nil, List.append_nil]
    exact congrArg (_ ++ [·]) (message_of_writes hwrites)
  · dsimp only [Purpose.go] at hworks ⊢
    cases written with
    | error e =>
      obtain ⟨f₂, hshows, hhears⟩ := hears_hearOut hwritten bodies stop
      rw [hshows.front, hhears.sameLink.isDue, (error_of_writes hwrites).1] at hworks
      cases hworks
    | ok _ =>
      have hdeals := deals_hearOut hwritten.served.client (hinbox.symm ▸ hahead)
      rw [hinbox] at hdeals
      refine hdeals.attended ?_
      rw [frames_hearOut hwritten.served bodies stop, hwritten.front, hanswers, completed,
        List.filter_cons_of_pos hvoiced, List.filter_nil]

/-- As long as writing succeeds, a turn of the reader adds the answers to the requests that it
deals with. -/
theorem attended_go (hserved : IsServed c h) (hpart : Frame.Settled part) {st : Standing}
    (hst : st.isReading = true) (hunderway : ∀ w, st.writing? = some w → w.IsUnderway (front c h))
    (hvoiced : ∀ w, st.writing? = some w → w.message.isResponse = st.isReading)
    (hahead : Ahead part future (inbox c h) later st.held?)
    (hworks : (front c (st.go c h).1).isDue = false) :
    Attended part future later (answersIn (front c h).frames ++ st.reply?.toList) (inbox c h)
      (front c (st.go c h).1) (inbox c (st.go c h).1) (st.go c h).2 := by
  cases st with
  | idle =>
    simp only [Standing.go]
    split
    · obtain ⟨f', hshows, hgo⟩ := progress_readOn (.of_served hserved)
      refine (deals_readOn hserved hpart hahead).attended ?_
      rw [hshows.front, (hgo.link_same rfl).1]
      exact (List.append_nil _).symm
    · exact .still (.inl rfl) hahead rfl
  | handing id r bodies stop =>
    have hinbox := inbox_onClient (g := (·.deliver id r)) (sameMail_deliver (h.client c) id r)
    obtain ⟨hlink, hholders, -, -⟩ := deliver_same (h.client c) id r
    have hdelivered := (Shows.of_served hserved).onClient (g := (·.deliver id r)) hlink hholders
    have hdeals := deals_hearOut hdelivered.served.client (hinbox.symm ▸ hahead)
    rw [hinbox] at hdeals
    refine hdeals.attended ?_
    change answersIn (front c (hearOut c bodies stop _).1).frames = _
    rw [frames_hearOut hdelivered.served, hdelivered.front]
    exact (List.append_nil _).symm
  | closing =>
    have hinbox := inbox_onClient (g := forgetAll) (h := h) (c := c) ⟨rfl, rfl, rfl, rfl⟩
    have hshows := (Shows.of_served hserved).onClient (g := forgetAll) rfl rfl
    simp only [Standing.go]
    rw [hinbox, hshows.front]
    exact .still (.inr ⟨false, rfl⟩) hahead rfl
  | writing purpose w =>
    cases purpose with
    | answer bodies stop =>
      have hresponse := (hvoiced w rfl).trans hst
      exact attended_answer hserved (hunderway w rfl) hresponse hahead hworks
    | _ => cases hst
  | _ => cases hst

/-- Bytes that come in before what is still to come. -/
theorem Ahead.moved {x x' : Inbox} {future' : Frame.Bytes} {later : List String}
    {held? : Option (List String × Frame.Drained)} (h : Ahead part future x later held?)
    (hbuffer : x'.buffer = x.buffer)
    (hbytes : x'.incoming ++ future' = x.incoming ++ future) :
    Ahead part future' x' later held? := by
  cases h with
  | unread hdrain hsettled =>
    rw [← hbytes, ← hbuffer] at hdrain
    exact .unread hdrain (hbuffer ▸ hsettled)
  | read hdrain hsettled =>
    rw [← hbytes] at hdrain
    exact .read hdrain hsettled

/-! ## Turns of a lineup -/

/-- The places of those who read. -/
def readers (ps : List Place) : List Standing := (ps.map (·.standing)).filter (·.isReading)

theorem readers_perm {ps ps' : List Place} (hperm : ps.Perm ps') :
    (readers ps).Perm (readers ps') :=
  (hperm.map _).filter _

theorem readers_cons (p : Place) (ps : List Place) :
    readers (p :: ps) = [p.standing].filter (·.isReading) ++ readers ps := by
  unfold readers
  rw [List.map_cons, ← List.filter_append]
  rfl

theorem alone_of_perm {st : Standing} {others : List Standing} {st? : Option Standing}
    (h : ([st] ++ others).Perm st?.toList) : st? = some st ∧ others = [] := by
  cases st? with
  | none => simp at h
  | some st' =>
    have hsame := List.perm_singleton.mp h
    simp only [List.singleton_append, List.cons.injEq] at hsame
    exact ⟨by rw [hsame.1], hsame.2⟩

/-- One reader at most deals with what the server sends: `later` is still to come, and `answers`
are those that it gave and the one that it gives. -/
structure Attends (c : Nat) (part coming : Frame.Bytes) (later : List String)
    (answers : List Message) (l : Lineup) : Prop where
  stands : l.Stands c fun f ps => Orderly f ps ∧ Voiced f ps
  reader : ∃ st? : Option Standing, (readers l.places).Perm st?.toList ∧
    (∃ future, ((inbox c l.hub).hasEnded = false → future = coming) ∧
      Ahead part future (inbox c l.hub) later (st?.bind (·.held?))) ∧
    answers = answersIn (front c l.hub).frames ++ (st?.bind (·.reply?)).toList

/-- What happens elsewhere takes nothing of what the server sent; the server may hang up. -/
def Turn.LeavesUnread (c : Nat) : Turn → Prop
  | .others change => ∀ h, IsServed c h →
      (inbox c (change h)).buffer = (inbox c h).buffer ∧
        (inbox c (change h)).incoming = (inbox c h).incoming ∧
          ((inbox c h).hasEnded = true → (inbox c (change h)).hasEnded = true)
  | _ => True

def arrive (c : Nat) (piece : Frame.Bytes) (h : Hub) : Hub :=
  (h.fromLink (h.client c).link fun l => ((), l.arrive piece)).2

inductive Event where
  /-- Bytes come from the server. -/
  | arrives (piece : Frame.Bytes)
  | takes (turn : Turn)

namespace Event

def turn (c : Nat) : Event → Turn
  | arrives piece => .others (arrive c piece)
  | takes turn => turn

def piece : Event → Frame.Bytes
  | arrives piece => piece
  | takes _ => []

def IsProper (c : Nat) : Event → Prop
  | arrives _ => True
  | takes turn => turn.IsProper c ∧ turn.LeavesUnread c

end Event

theorem kept_base : Kept (fun _ _ => True) fun f ps => Orderly f ps ∧ Voiced f ps :=
  kept_orderly.and (kept_voiced.weaken fun _ => trivial)

theorem isElsewhere_arrive (c : Nat) (piece : Frame.Bytes) : IsElsewhere c (arrive c piece) := by
  intro h hserved
  have hsame : ∀ l : Link, (l.arrive piece).outgoing = l.outgoing ∧
      (l.arrive piece).writeFault = l.writeFault ∧ (l.arrive piece).room = l.room := by
    intro l
    unfold Link.arrive
    split <;> exact ⟨rfl, rfl, rfl⟩
  have hshows := (Shows.of_served hserved).fromLink fun l => ((), l.arrive piece)
  obtain ⟨hframes, hfault, hroom⟩ := hsame (h.linkOf c)
  refine ⟨hshows.served, ?_⟩
  have hfront : front c (arrive c piece h) = front c h := by
    refine hshows.front.trans ?_
    dsimp only
    rw [hframes, hfault, Link.isWritable, hfault, hroom]
    rfl
  rw [hfront]
  exact .refl _

theorem inbox_arrive (hserved : IsServed c h) (piece : Frame.Bytes) :
    inbox c (arrive c piece h) =
      { inbox c h with incoming := (inbox c h).incoming ++
          if (inbox c h).hasEnded then [] else piece } := by
  have hlink : (arrive c piece h).linkOf c = (h.linkOf c).arrive piece :=
    hserved.linkOf_fromLink _
  rw [inbox_of_sameMail (arrive c piece h) (.refl (h.client c)) rfl, hlink]
  unfold inbox Link.arrive
  split <;> simp [*]

theorem Event.IsProper.turn {e : Event} (he : e.IsProper c) : (e.turn c).IsProper c := by
  cases e with
  | arrives piece => exact isElsewhere_arrive c piece
  | takes turn => exact he.1

theorem readers_append (ps : List Place) (p : Place) :
    readers (ps ++ [p]) = readers ps ++ [p.standing].filter (·.isReading) := by
  simp [readers]

theorem errand_of_isReading {f : Front} {e : Errand} {st : Standing} (hfits : Fits f e st)
    (hst : st.isReading = true) : e = .listen := by
  cases hfits with
  | reading st hst => rfl
  | listened goesOn => rfl
  | _ => cases hst

theorem Begins.frames {f f' : Front} {e : Errand} {st : Standing} (h : Begins f e f' st) :
    f'.frames = f.frames := by
  cases h <;> rfl

theorem Begins.idle_of_isReading {f f' : Front} {e : Errand} {st : Standing}
    (h : Begins f e f' st) (hst : st.isReading = true) : e = .listen ∧ st = .idle := by
  cases h with
  | listens => exact ⟨rfl, rfl⟩
  | _ => cases hst

/-- A new reader begins when there is none. -/
theorem readers_of_isDue {f : Front} {ps : List Place} (hfits : AllFit f ps)
    (hdue : Errand.listen.isDue (ps.map fun p => (p.errand, p.standing.result?)) = true) :
    readers ps = [] := by
  refine List.filter_eq_nil_iff.mpr fun st hst hreading => ?_
  obtain ⟨p, hp, rfl⟩ := List.mem_map.mp hst
  have hlets := List.all_eq_true.mp hdue _ (List.mem_map_of_mem hp)
  have herrand := errand_of_isReading (hfits p hp) hreading
  dsimp only at hlets
  rw [herrand] at hlets
  cases hstanding : p.standing with
  | ended e =>
    rw [hstanding] at hreading
    cases hreading
  | _ =>
    rw [hstanding] at hlets
    cases hlets

namespace Attends

variable {coming : Frame.Bytes} {answers : List Message} {l : Lineup}

theorem begin (h : Attends c part coming later answers l) {e : Errand} (he : e.IsProper) :
    Attends c part coming later answers (l.step c (.begin e)) where
  stands := h.stands.step kept_base he
  reader := by
    obtain ⟨st?, hreaders, hahead, hanswers⟩ := h.reader
    simp only [Lineup.step]
    split
    · rename_i hdue
      obtain ⟨f', hshows, hbegins⟩ := begins_begin (.of_served h.stands.served) e
      dsimp only
      rw [hshows.front, hbegins.frames, inbox_begin, readers_append]
      cases hst : (e.begin c l.hub).2.isReading with
      | false => exact ⟨st?, by simpa [hst] using hreaders, hahead, hanswers⟩
      | true =>
        obtain ⟨rfl, hidle⟩ := hbegins.idle_of_isReading hst
        rw [readers_of_isDue h.stands.holds.1.fits hdue] at hreaders ⊢
        have hnone : st? = none := by
          cases st? with
          | none => rfl
          | some st => simp at hreaders
        subst hnone
        refine ⟨some .idle, ?_, hahead, hanswers⟩
        rw [hidle]
        rfl
    · exact ⟨st?, hreaders, hahead, hanswers⟩

theorem elsewhere (h : Attends c part coming later answers l) {change : Hub → Hub}
    (hproper : IsElsewhere c change) (hleaves : (Turn.others change).LeavesUnread c) :
    Attends c part coming later answers (l.step c (.others change)) where
  stands := by
    have hturn : (Turn.others change).IsProper c := hproper
    exact h.stands.step kept_base hturn
  reader := by
    obtain ⟨st?, hreaders, ⟨future, hfuture, hahead⟩, hanswers⟩ := h.reader
    obtain ⟨-, helse⟩ := hproper l.hub h.stands.served
    obtain ⟨hbuffer, hincoming, hended⟩ := hleaves l.hub h.stands.served
    simp only [Lineup.step]
    refine ⟨st?, hreaders, ⟨future, fun hopen => hfuture ?_, ?_⟩,
      helse.frames.symm ▸ hanswers⟩
    · by_contra hno
      rw [hended (by simpa using hno)] at hopen
      cases hopen
    · exact hahead.moved hbuffer (by rw [hincoming])

theorem arrives (piece : Frame.Bytes) (h : Attends c part (piece ++ coming) later answers l) :
    Attends c part coming later answers (l.step c (.others (arrive c piece))) where
  stands := by
    have hturn : (Turn.others (arrive c piece)).IsProper c := isElsewhere_arrive c piece
    exact h.stands.step kept_base hturn
  reader := by
    obtain ⟨st?, hreaders, ⟨future, hfuture, hahead⟩, hanswers⟩ := h.reader
    obtain ⟨-, helse⟩ := isElsewhere_arrive c piece l.hub h.stands.served
    have hinbox := inbox_arrive h.stands.served piece
    simp only [Lineup.step]
    rw [hinbox, helse.frames]
    refine ⟨st?, hreaders, ?_, hanswers⟩
    cases hended : (inbox c l.hub).hasEnded with
    | true =>
      -- What the server says after it hung up is lost.
      exact ⟨future, fun hopen => (Bool.noConfusion hopen), hahead.moved rfl (by simp)⟩
    | false =>
      obtain rfl := hfuture hended
      refine ⟨coming, fun _ => rfl, hahead.moved rfl ?_⟩
      simp

theorem goOn (h : Attends c part coming later answers l) (hpart : Frame.Settled part) (i : Nat)
    (hworks : (front c (l.step c (.goOn i)).hub).isDue = false) :
    ∃ dealt later', later = dealt ++ later' ∧ (dealt.filterMap request?).length ≤ 1 ∧
      Attends c part coming later'
        (answers ++ (dealt.filterMap request?).map (inbox c l.hub).reply) (l.step c (.goOn i)) := by
  obtain ⟨st?, hreaders, ⟨future, hfuture, hahead⟩, hanswers⟩ := h.reader
  have hserved := h.stands.served
  have hturn : (Turn.goOn i).IsProper c := trivial
  have hstands := h.stands.step kept_base hturn
  simp only [Lineup.step] at hworks hstands ⊢
  cases hi : l.places[i]? with
  | none => exact ⟨[], later, rfl, Nat.zero_le _, by simpa using h⟩
  | some p =>
    rw [hi] at hworks hstands
    obtain ⟨hbefore, hafter⟩ := perm_cons_eraseIdx hi
    have hmem : p ∈ l.places := List.mem_of_getElem? hi
    have hunderway := h.stands.holds.1.stream.underway p hmem
    have hvoiced := h.stands.holds.2 p hmem
    have hperm := (readers_perm hbefore).symm.trans hreaders
    have hnext := readers_perm (hafter { p with standing := (p.standing.go c l.hub).2 })
    rw [readers_cons] at hperm hnext
    dsimp only at hworks hstands hnext ⊢
    cases hst : p.standing.isReading with
    | false =>
      obtain ⟨f', hshows, hgo⟩ := progress_go (.of_served hserved) p.standing
      have hsilent := isReading_of_progress hgo hst
      rw [List.filter_cons_of_neg (by simp [hst])] at hperm
      rw [List.filter_cons_of_neg (by simp [hsilent])] at hnext
      refine ⟨[], later, rfl, Nat.zero_le _, hstands, st?, hnext.trans hperm, ?_, ?_⟩
      · rw [inbox_go hst]
        exact ⟨future, hfuture, hahead⟩
      · rw [hshows.front, answersIn_of_progress hgo hst hunderway hvoiced]
        simpa using hanswers
    | true =>
      -- The reader is alone, and is so afterwards if it still reads.
      rw [List.filter_cons_of_pos hst, List.filter_nil] at hperm
      obtain ⟨rfl, hnone⟩ := alone_of_perm hperm
      obtain ⟨hstays, hgoesOn, dealt, later', hlater, hahead', hcount, hsaid⟩ :=
        attended_go hserved hpart hst hunderway hvoiced hahead hworks
      rw [hnone, List.append_nil] at hnext
      refine ⟨dealt, later', hlater, hcount, hstands, ?_⟩
      change answers = answersIn _ ++ p.standing.reply?.toList at hanswers
      rw [hanswers, ← hsaid, hstays]
      rcases hgoesOn with hreads | ⟨goesOn, hended⟩
      · rw [List.filter_cons_of_pos hreads, List.filter_nil] at hnext
        exact ⟨some _, hnext, ⟨future, hfuture, hahead'⟩, rfl⟩
      · rw [hended] at hnext hahead' ⊢
        exact ⟨none, hnext, ⟨future, hfuture, hahead'⟩, rfl⟩

/-- An event adds the answers to the requests that are dealt with in it, one at most. -/
theorem step {e : Event} (h : Attends c part (e.piece ++ coming) later answers l)
    (hpart : Frame.Settled part) (he : e.IsProper c)
    (hworks : (front c (l.step c (e.turn c)).hub).isDue = false) :
    ∃ dealt later', later = dealt ++ later' ∧ (dealt.filterMap request?).length ≤ 1 ∧
      Attends c part coming later'
        (answers ++ (dealt.filterMap request?).map (inbox c l.hub).reply)
        (l.step c (e.turn c)) := by
  have hsame : ∀ {l'}, Attends c part coming later answers l' →
      ∃ dealt later', later = dealt ++ later' ∧ (dealt.filterMap request?).length ≤ 1 ∧
        Attends c part coming later'
          (answers ++ (dealt.filterMap request?).map (inbox c l.hub).reply) l' := fun h' =>
    ⟨[], later, rfl, Nat.zero_le _, by simpa using h'⟩
  cases e with
  | arrives piece => exact hsame (h.arrives piece)
  | takes turn =>
    cases turn with
    | begin e => exact hsame (begin h he.1)
    | goOn i => exact goOn h hpart i hworks
    | others change => exact hsame (elsewhere h he.1 he.2)

end Attends

/-! ## Runs -/

/-- What cannot be written any more never can again. -/
theorem kept_isDue : Kept (fun _ _ => True) fun f _ => f.isDue = true where
  perm _ h := h
  go _ _ h hgo := (lasting_of_progress hgo).2 h
  begin _ _ h _ hbegins := by cases hbegins <;> exact h
  elsewhere _ h helse := helse.isDue h

theorem isDue_of_run {l : Lineup} (hserved : IsServed c l.hub) {turns : List Turn}
    (hturns : ∀ turn ∈ turns, turn.IsProper c)
    (hworks : (front c (l.run c turns).hub).isDue = false) : (front c l.hub).isDue = false := by
  by_contra hdue
  have hstands : l.Stands c fun f _ => f.isDue = true := ⟨hserved, by simpa using hdue⟩
  have hend := (hstands.run kept_isDue hturns).holds
  rw [hworks] at hend
  cases hend

/-- The lineup before the event at this place. -/
def Lineup.before (c : Nat) (l : Lineup) (events : List Event) (n : Nat) : Lineup :=
  l.run c ((events.map (·.turn c)).take n)

/-- The requests in these bodies, each with the event in which it is dealt with. -/
structure Entered (dealt : List String) (count : Nat) (entries : List (Nat × Request)) :
    Prop where
  requests : dealt.filterMap request? = entries.map Prod.snd
  ordered : (entries.map Prod.fst).Pairwise (· < ·)
  bounded : ∀ entry ∈ entries, entry.1 < count

def postpone (entry : Nat × Request) : Nat × Request := (entry.1 + 1, entry.2)

theorem Entered.cons {first rest : List String} {count : Nat} {entries : List (Nat × Request)}
    (hone : (first.filterMap request?).length ≤ 1) (h : Entered rest count entries) :
    Entered (first ++ rest) (count + 1)
      ((first.filterMap request?).map (0, ·) ++ entries.map postpone) where
  requests := by
    rw [List.filterMap_append, h.requests]
    simp [Function.comp_def, postpone]
  ordered := by
    have hrest : ((entries.map postpone).map Prod.fst).Pairwise (· < ·) := by
      simpa [Function.comp_def, postpone, List.pairwise_map] using h.ordered
    cases hfirst : first.filterMap request? with
    | nil => exact hrest
    | cons r rs =>
      rw [hfirst] at hone
      obtain rfl := List.eq_nil_of_length_eq_zero (Nat.le_zero.mp (Nat.le_of_succ_le_succ hone))
      refine List.pairwise_cons.mpr ⟨fun n hn => ?_, hrest⟩
      obtain ⟨entry, -, rfl⟩ := List.mem_map.mp (List.map_map .. ▸ hn)
      exact Nat.succ_pos _
  bounded entry hentry := by
    rcases List.mem_append.mp hentry with hfirst | hrest
    · obtain ⟨r, -, rfl⟩ := List.mem_map.mp hfirst
      exact Nat.succ_pos _
    · obtain ⟨own, hown, rfl⟩ := List.mem_map.mp hrest
      exact Nat.succ_lt_succ (h.bounded own hown)

theorem Attends.run {events : List Event} {answers : List Message} {l : Lineup}
    (h : Attends c part (events.flatMap (·.piece)) later answers l) (hpart : Frame.Settled part)
    (hevents : ∀ e ∈ events, e.IsProper c)
    (hworks : (front c (l.run c (events.map (·.turn c))).hub).isDue = false) :
    ∃ (dealt later' : List String) (entries : List (Nat × Request)), later = dealt ++ later' ∧
      Entered dealt events.length entries ∧
      Attends c part [] later'
        (answers ++ entries.map fun entry =>
          (inbox c (l.before c events entry.1).hub).reply entry.2)
        (l.run c (events.map (·.turn c))) := by
  induction events generalizing l later answers with
  | nil =>
    exact ⟨[], later, [], rfl, ⟨rfl, .nil, fun _ h => absurd h List.not_mem_nil⟩,
      by simpa [Lineup.run] using h⟩
  | cons e events ih =>
    rw [List.forall_mem_cons] at hevents
    have hturns : ∀ turn ∈ events.map (·.turn c), turn.IsProper c := by
      intro turn hturn
      obtain ⟨e, he, rfl⟩ := List.mem_map.mp hturn
      exact (hevents.2 e he).turn
    have hserved := (h.stands.step kept_base hevents.1.turn).served
    obtain ⟨first, later₁, rfl, hone, hnext⟩ :=
      h.step hpart hevents.1 (isDue_of_run hserved hturns hworks)
    obtain ⟨rest, later₂, entries, rfl, hentered, hend⟩ := ih hnext hevents.2 hworks
    refine ⟨first ++ rest, later₂, _, (List.append_assoc ..).symm, hentered.cons hone, ?_⟩
    -- The first event is the one at place zero, and every other is one place further.
    rw [List.map_append, List.map_map, List.map_map, ← List.append_assoc]
    exact hend

/-! ## At rest -/

/-- Nobody can go on. -/
def IsAtRest (d : Switchboard) : Prop :=
  ∀ task ∈ d.tasks, task.rest.result? = none → task.rest.isReady d.hub = false

def Writing.isReady (c : Nat) (h : Hub) (w : Writing) : Bool :=
  match w.sent? with
  | none => (h.lock (.writer c)).isHeldBy w.ticket
  | some _ => (h.linkOf c).isWritable

theorem isReady_writing (w : Writing) : (w.program c).isReady h = w.isReady c h := by
  obtain ⟨message, ticket, sent?⟩ := w
  cases sent? with
  | none => rfl
  | some left =>
    unfold Writing.program
    dsimp only
    rw [transfer_succ]
    rfl

/-- Whatever a message is written for, the task goes on when the writing does. -/
theorem isReady_purpose (purpose : Purpose) {w : Writing} (hready : w.isReady c h = true) :
    (purpose.program c w).isReady h = true := by
  obtain ⟨hsettled, hwaits⟩ := isSettled_program (c := c) w
  rw [← isReady_writing] at hready
  unfold Purpose.program
  generalize w.program c = p at hsettled hwaits hready ⊢
  cases p with
  | done a => cases hwaits
  | act update next => exact hsettled.elim
  | spawn job next => exact hsettled.elim
  | await ready abandon next =>
    cases purpose with
    | request q id mark => cases mark <;> exact hready
    | recalling id mark => cases mark <;> exact hready
    | notice => exact hready
    | answer bodies stop =>
      change (_ || ready h) = true
      rw [show ready h = true from hready, Bool.or_true]

namespace Attends

variable {answers : List Message} {l : Lineup}

theorem nobody_writes (h : Attends c part [] later answers l) (hrest : IsAtRest (l.board c))
    (hwritable : (l.hub.linkOf c).isWritable = true) {p : Place} (hp : p ∈ l.places) :
    p.standing.writing? = none := by
  by_contra hwrites
  obtain ⟨w, hw⟩ := Option.ne_none_iff_exists'.mp hwrites
  obtain ⟨q, hq, v, hv, hholder⟩ := h.stands.holds.1.stream.exists_holder hp hw
  have hready : v.isReady c l.hub = true := by
    unfold Writing.isReady
    split
    · exact (Lock.isHeldBy_iff ..).mpr hholder
    · exact hwritable
  have hwaits := hrest (q.task c) (List.mem_map_of_mem hq)
  cases hst : q.standing with
  | writing purpose u =>
    rw [hst] at hv
    obtain rfl := Option.some.inj hv
    simp only [Place.task, hst, result?_standing] at hwaits
    cases (isReady_purpose purpose hready).symm.trans (hwaits rfl)
  | _ =>
    rw [hst] at hv
    cases hv

/-- When nobody can go on and a reader waits, everything is answered. -/
theorem complete (h : Attends c part [] later answers l) (hrest : IsAtRest (l.board c))
    (hwritable : (l.hub.linkOf c).isWritable = true) {p : Place} (hp : p ∈ l.places)
    (herrand : p.errand = .listen) (hbusy : p.standing.result? = none) :
    later = [] ∧ answersIn (front c l.hub).frames = answers := by
  obtain ⟨st?, hreaders, ⟨future, hfuture, hahead⟩, hanswers⟩ := h.reader
  have hsilent := h.nobody_writes hrest hwritable hp
  have hwaits := hrest (p.task c) (List.mem_map_of_mem hp) ((result?_standing _).trans hbusy)
  have hreading : p.standing.isReading = true := by
    have hfits := h.stands.holds.1.fits p hp
    rw [herrand] at hfits
    generalize p.standing = st at hfits hbusy
    cases hfits with
    | reading st hst => exact hst
    | listened goesOn => cases hbusy
  obtain rfl : st? = some p.standing := by
    have hmem : p.standing ∈ readers l.places :=
      List.mem_filter.mpr ⟨List.mem_map_of_mem hp, hreading⟩
    simpa [eq_comm] using hreaders.mem_iff.mp hmem
  simp only [Place.task] at hwaits
  generalize p.standing = st at hsilent hwaits hreading hahead hanswers
  cases st with
  | idle =>
    -- Nothing is there to read, and nothing more comes.
    have hread : (l.hub.linkOf c).isReadable = false := (Bool.or_eq_false_iff.mp hwaits).2
    simp only [Link.isReadable, Bool.or_eq_false_iff, Bool.not_eq_false',
      List.isEmpty_iff] at hread
    obtain ⟨⟨-, hincoming⟩, hopen⟩ := hread
    obtain rfl := hfuture hopen
    obtain ⟨hdrain, hsettled⟩ := hahead
    have hnothing : (inbox c l.hub).incoming = [] := hincoming
    rw [hnothing, List.append_nil, List.append_nil, Frame.drain_of_pause hsettled] at hdrain
    obtain ⟨rfl, -⟩ := Prod.mk.inj hdrain
    exact ⟨rfl, (hanswers.trans (List.append_nil _)).symm⟩
  | writing purpose w => cases hsilent
  | handing id r bodies stop => cases (Bool.or_eq_false_iff.mp hwaits).2
  | closing => cases (Bool.or_eq_false_iff.mp hwaits).2
  | _ => cases hreading

end Attends

/-! ## What a server is answered -/

/-- The settings of the definition that a client runs, as they are now. -/
def settingsOf? (c : Nat) (h : Hub) : Option Json :=
  ((h.registry.object? (h.client c).definition).getD default).settings

/-- The hub before the event at this place. -/
def hubBefore (c : Nat) (h : Hub) (events : List Event) (n : Nat) : Hub :=
  ((ofHub h).run c ((events.map (·.turn c)).take n)).hub

/-- This message answers a request that is dealt with in an event of these. -/
def AnswersIn (c : Nat) (h : Hub) (events : List Event) (entry : Nat × Request) (m : Message) :
    Prop :=
  entry.1 < events.length ∧ ∃ a, m = .response a ∧
    IsReply ((hubBefore c h events entry.1).client c).folders
      (settingsOf? c (hubBefore c h events entry.1)) entry.2 a

/-- Of these bodies the first were heard, and each request in them was answered when it was dealt
with: what the server got are these answers, in this order, and only the last may still be on its
way. When nobody can go on although the link takes bytes, a reader that is there has heard and
answered everything. -/
structure Answered (c : Nat) (h : Hub) (events : List Event) (bodies heard : List String)
    (entries : List (Nat × Request)) (answers : List Message) (d : Switchboard) : Prop where
  early : heard <+: bodies
  asked : Asked heard (entries.map Prod.snd)
  ordered : (entries.map Prod.fst).Pairwise (· < ·)
  each : List.Forall₂ (AnswersIn c h events) entries answers
  written : ∃ onItsWay : Option Message,
    answers = (d.hub.linkOf c).messagesOut.filter (·.isResponse) ++ onItsWay.toList
  complete : IsAtRest d → (d.hub.linkOf c).isWritable = true →
    (∃ task ∈ d.tasks, task.errand = .listen ∧ task.rest.result? = none) →
      heard = bodies ∧ (d.hub.linkOf c).messagesOut.filter (·.isResponse) = answers

theorem hubBefore_eq {events : List Event} (hnew : IsNew c h)
    (hturns : ∀ turn ∈ events.map (·.turn c), turn.IsProper c) (n : Nat) :
    hubBefore c h events n = (Lineup.before c ⟨h, []⟩ events n).hub := by
  have htaken : ∀ turn ∈ (events.map (·.turn c)).take n, turn.IsProper c := fun turn hturn =>
    hturns turn (List.mem_of_mem_take hturn)
  exact congrArg Switchboard.hub (run_eq_board hnew htaken)

/-- At a new client everything is still to come. -/
theorem attends_new {coming : Frame.Bytes} {bodies : List String} (hnew : IsNew c h)
    (hbuffer : (h.client c).buffer = []) (hincoming : (h.linkOf c).incoming = [])
    (hdrain : Frame.drain coming = (bodies, .waiting part)) :
    Attends c part coming bodies [] ⟨h, []⟩ where
  stands := ⟨hnew.served, orderly_new hnew, fun _ hp => absurd hp List.not_mem_nil⟩
  reader := by
    refine ⟨none, .nil, ⟨_, fun _ => rfl, .unread ?_ ?_⟩, ?_⟩
    · change Frame.drain ((h.client c).buffer ++ ((h.linkOf c).incoming ++ _)) = _
      rw [hbuffer, hincoming]
      exact hdrain
    · change Frame.Settled (h.client c).buffer
      rw [hbuffer]
      exact .nil
    · rw [hnew.frames]
      rfl

/-- Whatever a server sends, in whatever pieces and among whatever else happens at the client, each
request in it is answered once, in order, and nothing else is, as long as writing succeeds. -/
theorem answered_of_run {events : List Event} {bodies : List String} (hnew : IsNew c h)
    (hbuffer : (h.client c).buffer = []) (hincoming : (h.linkOf c).incoming = [])
    (hevents : ∀ e ∈ events, e.IsProper c)
    (hfits : ∀ body ∈ bodies, (Frame.encode body).length < Frame.addressLimit)
    (hpart : Frame.Settled part)
    (hsent : events.flatMap (·.piece) = bodies.flatMap Frame.encode ++ part)
    (hworks : StreamFault.due?
      (((ofHub h).run c (events.map (·.turn c))).hub.linkOf c).writeFault = none) :
    ∃ heard entries answers, Answered c h events bodies heard entries answers
      ((ofHub h).run c (events.map (·.turn c))) := by
  have hturns : ∀ turn ∈ events.map (·.turn c), turn.IsProper c := by
    intro turn hturn
    obtain ⟨e, he, rfl⟩ := List.mem_map.mp hturn
    exact (hevents e he).turn
  have hdrain : Frame.drain (events.flatMap (·.piece)) = (bodies, .waiting part) :=
    hsent ▸ Frame.drain_frames_append hfits hpart
  have hstart := attends_new hnew hbuffer hincoming hdrain
  rw [run_eq_board hnew hturns] at hworks ⊢
  have hworks' : (front c (lineupOf c h (events.map (·.turn c))).hub).isDue = false := by
    rw [front]
    exact Option.isSome_eq_false_iff.mpr (Option.isNone_iff_eq_none.mpr hworks)
  obtain ⟨heard, left, entries, rfl, hentered, hend⟩ := hstart.run hpart hevents hworks'
  rw [List.nil_append] at hend
  refine ⟨heard, entries, entries.map fun entry =>
      (inbox c (Lineup.before c ⟨h, []⟩ events entry.1).hub).reply entry.2,
    List.prefix_append heard left, ?_, hentered.ordered, ?_, ?_,
    fun hrest hwritable hreader => ?_⟩
  · exact hentered.requests ▸ asked_filterMap heard
  · rw [List.forall₂_map_right_iff, List.forall₂_same]
    intro entry hentry
    refine ⟨hentered.bounded entry hentry, ?_⟩
    rw [hubBefore_eq hnew hturns]
    exact isReply_answerTo _ _ entry.2
  · obtain ⟨st?, -, -, hanswers⟩ := hend.reader
    exact ⟨st?.bind (·.reply?), hanswers⟩
  · obtain ⟨task, htask, herrand, hbusy⟩ := hreader
    obtain ⟨p, hp, rfl⟩ := List.mem_map.mp htask
    obtain ⟨rfl, hall⟩ := hend.complete hrest hwritable hp herrand
      ((result?_standing p.standing).symm.trans hbusy)
    exact ⟨(List.append_nil heard).symm, hall⟩

/-- A request of the server comes in two pieces, while the client makes one of its own. -/
theorem answered_of_run_in_pieces :
    let h := { Hub.new .empty [] default with
      clients := [Client.new "a" 0 [] ⟨1⟩ 0], links := [⟨"a", "", .fresh⟩] }
    let body := "\x7b\"jsonrpc\":\"2.0\",\"id\":\"q\",\"method\":\"m\"\x7d"
    let events : List Event := [.takes (.begin .listen), .arrives ((Frame.encode body).take 30),
      .takes (.goOn 0), .takes (.begin (.ask ⟨"m", .null, none, ⟨1000⟩⟩)),
      .arrives ((Frame.encode body).drop 30), .takes (.begin .listen), .takes (.goOn 2),
      .takes (.goOn 1), .takes (.goOn 2), .takes (.goOn 2)]
    let d := (ofHub h).run 0 (events.map (·.turn 0))
    IsNew 0 h ∧ (h.client 0).buffer = [] ∧ (h.linkOf 0).incoming = [] ∧
      (∀ e ∈ events, e.IsProper 0) ∧ (Frame.encode body).length < Frame.addressLimit ∧
      events.flatMap (·.piece) = [body].flatMap Frame.encode ++ [] ∧
      StreamFault.due? (d.hub.linkOf 0).writeFault = none ∧
      ((d.hub.linkOf 0).messagesOut.map (·.isResponse)) = [true] ∧
      ∃ heard entries answers, Answered 0 h events [body] heard entries answers d := by
  intro h body events d
  have hnew : IsNew 0 h :=
    ⟨⟨by decide, by decide, rfl⟩, rfl, rfl, rfl, rfl, fun i => by cases i <;> rfl⟩
  have hevents : ∀ e ∈ events, e.IsProper 0 := by
    simp [events, Event.IsProper, Turn.IsProper, Errand.IsProper, Turn.LeavesUnread]
  have hfits : (Frame.encode body).length < Frame.addressLimit := by decide +kernel
  have hsent : events.flatMap (·.piece) = [body].flatMap Frame.encode ++ [] := by decide +kernel
  have hout : StreamFault.due? (d.hub.linkOf 0).writeFault = none ∧
      (d.hub.linkOf 0).messagesOut.map (·.isResponse) = [true] := by decide +kernel
  refine ⟨hnew, rfl, rfl, hevents, hfits, hsent, hout.1, hout.2, ?_⟩
  exact answered_of_run hnew rfl rfl hevents (by simpa using hfits) .nil hsent hout.1

/-- An empty section is answered with all settings, although its only key leads nowhere in them, and
a request with a number beyond all doubles is not answered at all. -/
theorem answers_empty_section :
    let settings := Json.obj [("a", .num (.int 1))]
    let definition := { ServerDefinition.new "py" .factory with settings := some settings }
    let h := { Hub.new (Registry.empty.add definition) [] default with
      clients := [Client.new "py" 1 [] ⟨1⟩ 0], links := [⟨"py", "", .fresh⟩] }
    let request := "\x7b\"jsonrpc\":\"2.0\",\"id\":5,\"method\":\"workspace/configuration\"," ++
      "\"params\":\x7b\"items\":[\x7b\"section\":\"\"\x7d]\x7d\x7d"
    let large := "\x7b\"jsonrpc\":\"2.0\",\"id\":6,\"method\":\"m\",\"params\":[1e999]\x7d"
    let turns := [.begin .listen, .others (arrive 0 ([request, large].flatMap Frame.encode)),
      .goOn 0, .goOn 0, .goOn 0, .begin .listen]
    let d := (ofHub h).run 0 turns
    settingsOf? 0 h = some settings ∧ IsPath "" [""] ∧ (∀ v, ¬ Descends settings [""] v) ∧
      IsAtRest d ∧
      (d.hub.linkOf 0).messagesOut.map (·.body) =
        ["\x7b\"jsonrpc\":\"2.0\",\"id\":5,\"result\":[\x7b\"a\":1\x7d]\x7d"] := by
  intro settings definition h request large turns d
  have hpath : IsPath "" [""] := ⟨by decide, by simp⟩
  have hnowhere : ∀ v, ¬ Descends settings [""] v := by
    intro v
    rw [descends_iff]
    exact nofun
  have hrun : (∀ task ∈ d.tasks,
        task.rest.result?.isSome = true ∨ task.rest.isReady d.hub = false) ∧
      (d.hub.linkOf 0).messagesOut.map (·.body) =
        ["\x7b\"jsonrpc\":\"2.0\",\"id\":5,\"result\":[\x7b\"a\":1\x7d]\x7d"] := by
    decide +kernel
  obtain ⟨hrest, hout⟩ := hrun
  refine ⟨rfl, hpath, hnowhere, fun task htask hbusy => ?_, hout⟩
  refine (hrest task htask).resolve_left fun hover => ?_
  rw [hbusy] at hover
  cases hover

end Switchboard

end LanguageHub
