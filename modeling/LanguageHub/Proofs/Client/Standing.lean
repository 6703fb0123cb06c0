import LanguageHub.Proofs.Client.Correspondence
import LanguageHub.Proofs.Client.Writing

/-!
# Where a task of a client stands

What runs on a client waits in few places: in line for the stream, while the stream is full, for
an answer, or for something to read. Each place has its program, and what a task does when it goes
on is computed from its place.

Laws: a program in its turn comes to the program of the place that was computed.
-/

namespace LanguageHub

namespace Hub

/-- Counts a request among those of its cancellation, if it has one; by which mark it ends. -/
def mark (cancellation : Option Nat) (r : PendingRequest) (h : Hub) : Option (Nat × Nat) × Hub :=
  match cancellation with
  | none => (none, h)
  | some i =>
    (some (i, (h.cancellation i).nextToken), h.onCancellation i fun _ =>
      ((h.cancellation i).track r).2)

def unmark : Option (Nat × Nat) → Hub → Hub
  | none, h => h
  | some (i, token), h => h.onCancellation i (·.untrack token)

end Hub

namespace Switchboard

open Routine Client

variable {c : Nat} {α : Type}

/-! ## Tasks -/

/-- What a task at a client is there for. -/
inductive Errand where
  | ask (q : Question)
  | tell (method : String) (params : Json)
  /-- Reads once. -/
  | listen

inductive Ending where
  | asked (result : Except HubError Json)
  | told (result : Except HubError Unit)
  | listened (goesOn : Bool)

def Errand.program (c : Nat) : Errand → Program Ending
  | ask q => (request c q.method q.params q.cancellation q.timeout).map .asked
  | tell method params => (notify c method params).map .told
  | listen => (Client.listen c).map .listened

/-! ## Messages on their way -/

/-- A message that is written, with the writer's ticket for the stream. -/
structure Writing where
  message : Message
  ticket : Nat
  /-- How many rounds may follow the next one, and how many bytes were accepted, once the stream
  is the writer's. -/
  sent? : Option (Nat × Nat)

namespace Writing

def size (w : Writing) : Nat := w.message.frame.length

def start (c : Nat) (m : Message) (h : Hub) : Hub × Writing :=
  ((h.enterLock (.writer c)).2, ⟨m, (h.enterLock (.writer c)).1, none⟩)

def program (c : Nat) (w : Writing) : Program (Except HubError Unit) :=
  match w.sent? with
  | none =>
    ((waitUntil fun h => (h.lock (.writer c)).isHeldBy w.ticket).bind fun _ =>
      transfer c w.message w.size w.size 0).ensuring (Hub.leaveLock (.writer c) w.ticket)
  | some (rounds, sent) =>
    (transfer c w.message w.size (rounds + 1) sent).ensuring (Hub.leaveLock (.writer c) w.ticket)

/-- How far the message is after the writer's turn, or how the writing ended. -/
def go (c : Nat) (w : Writing) (h : Hub) : Hub × (Writing ⊕ Except HubError Unit) :=
  match w.sent? with
  | none =>
    if (h.lock (.writer c)).isHeldBy w.ticket then
      (h, .inl { w with sent? := some (w.size - 1, 0) })
    else (h, .inl w)
  | some (rounds, sent) =>
    if (h.linkOf c).isWritable then
      let written := h.fromLink (h.client c).link (·.write w.message w.size sent)
      match written.1 with
      | .error e => (written.2.leaveLock (.writer c) w.ticket, .inr (.error e))
      | .ok count =>
        if w.size ≤ sent + count ∨ rounds = 0 then
          (written.2.leaveLock (.writer c) w.ticket, .inr (.ok ()))
        else (written.2, .inl { w with sent? := some (rounds - 1, sent + count) })
    else (h, .inl w)

end Writing

def after (c : Nat) : Writing ⊕ Except HubError Unit → Program (Except HubError Unit)
  | .inl w => w.program c
  | .inr r => .done r

theorem legFrom_write (m : Message) (h : Hub) (jobs : List Job) :
    (write c m).legFrom h jobs =
      ⟨(Writing.start c m h).1, jobs, (Writing.start c m h).2.program c⟩ :=
  rfl

theorem isSettled_program (w : Writing) :
    (w.program c).IsSettled ∧ (w.program c).result? = none := by
  unfold Writing.program
  split
  · exact ⟨trivial, rfl⟩
  · rw [transfer_succ]
    exact ⟨trivial, rfl⟩

/-- The last round of a transfer has nothing left to write. -/
theorem legFrom_carryOn (m : Message) (size rounds sent count : Nat) (h : Hub) (jobs : List Job) :
    (carryOn c m size rounds sent (.ok count)).legFrom h jobs =
      if size ≤ sent + count ∨ rounds = 0 then ⟨h, jobs, .done (.ok ())⟩
      else ⟨h, jobs, transfer c m size (rounds - 1 + 1) (sent + count)⟩ := by
  change legFrom (if size ≤ sent + count then done (.ok ())
    else transfer c m size rounds (sent + count)) h jobs = _
  by_cases hwhole : size ≤ sent + count
  · rw [if_pos hwhole, if_pos (.inl hwhole)]
    rfl
  · cases rounds with
    | zero =>
      rw [if_neg hwhole, if_pos (.inr rfl)]
      rfl
    | succ rounds =>
      rw [if_neg hwhole, if_neg (by simpa using hwhole), transfer_succ]
      rfl

theorem advance_writing (w : Writing) (h : Hub) (jobs : List Job) :
    (w.program c).advance h jobs = ⟨(w.go c h).1, jobs, after c (w.go c h).2⟩ := by
  obtain ⟨message, ticket, sent?⟩ := w
  cases sent? with
  | none =>
    -- A frame is never empty, so the transfer has a first round and waits for it.
    obtain ⟨k, hk⟩ := Nat.exists_eq_succ_of_ne_zero (Nat.ne_of_gt message.frame_pos)
    simp only [Writing.program, Writing.go, Writing.size, hk]
    rw [advance_ensuring _ (by trivial) rfl]
    change Stage.ensuring _ (if (h.lock (.writer c)).isHeldBy ticket = true then _ else _) = _
    split
    · rw [transfer_succ]
      simp only [Nat.succ_eq_add_one, Nat.add_sub_cancel, after, Writing.program, Writing.size, hk,
        transfer_succ]
      rfl
    · simp only [after, Writing.program, Writing.size, hk]
      rfl
  | some left =>
    obtain ⟨rounds, sent⟩ := left
    simp only [Writing.program, Writing.go]
    rw [advance_ensuring _ (by rw [transfer_succ]; trivial) (by rw [transfer_succ]; rfl)]
    rw [transfer_succ]
    change Stage.ensuring _ (if (h.linkOf c).isWritable = true then
      (carryOn c message _ rounds sent (h.fromLink (h.client c).link _).1).legFrom
        (h.fromLink (h.client c).link _).2 jobs else _) = _
    split
    · cases hcount : (h.fromLink (h.client c).link
        (·.write message (Writing.size ⟨message, ticket, some (rounds, sent)⟩) sent)).1 with
      | error e => rfl
      | ok count =>
        rw [legFrom_carryOn]
        dsimp only
        split
        · rfl
        · simp only [after, Writing.program, Writing.size, transfer_succ]
          rfl
    · simp only [after, Writing.program, transfer_succ]
      rfl

/-! ## Marks -/

/-- The program with what ends its mark. -/
def marked (mark : Option (Nat × Nat)) (p : Program α) : Program α :=
  match mark with
  | none => p
  | some (i, token) => p.ensuring (Hub.onCancellation i (·.untrack token))

def markedStage (mark : Option (Nat × Nat)) (st : Stage Job Hub α) : Stage Job Hub α :=
  match mark with
  | none => st
  | some (i, token) => st.ensuring (Hub.onCancellation i (·.untrack token))

theorem legFrom_marked (mark : Option (Nat × Nat)) (p : Program α) (h : Hub) (jobs : List Job) :
    (marked mark p).legFrom h jobs = markedStage mark (p.legFrom h jobs) := by
  cases mark with
  | none => rfl
  | some entry => exact legFrom_ensuring _ p h jobs

theorem advance_marked (mark : Option (Nat × Nat)) {p : Program α} (hp : p.IsSettled)
    (hwaits : p.result? = none) (h : Hub) (jobs : List Job) :
    (marked mark p).advance h jobs = markedStage mark (p.advance h jobs) := by
  cases mark with
  | none => rfl
  | some entry => exact advance_ensuring _ hp hwaits h jobs

@[simp] theorem markedStage_done (mark : Option (Nat × Nat)) (h : Hub) (jobs : List Job) (a : α) :
    markedStage mark ⟨h, jobs, .done a⟩ = ⟨Hub.unmark mark h, jobs, .done a⟩ := by
  cases mark <;> rfl

theorem markedStage_waiting (mark : Option (Nat × Nat)) (h : Hub) (jobs : List Job) {p : Program α}
    (hwaits : p.result? = none) : markedStage mark ⟨h, jobs, p⟩ = ⟨h, jobs, marked mark p⟩ := by
  cases mark with
  | none => rfl
  | some entry =>
    cases p with
    | done a => cases hwaits
    | _ => rfl

theorem legFrom_tracking (cancellation : Option Nat) (r : PendingRequest) (p : Program α) (h : Hub)
    (jobs : List Job) : (tracking cancellation r p).legFrom h jobs =
      markedStage (h.mark cancellation r).1 (p.legFrom (h.mark cancellation r).2 jobs) := by
  cases cancellation with
  | none => exact legFrom_marked none p h jobs
  | some i => exact legFrom_ensuring _ p _ jobs

/-! ## Places -/

/-- What a message is written for. -/
inductive Purpose where
  | request (q : Question) (id : RequestId) (mark : Option (Nat × Nat))
  /-- The call was cancelled, and the server is told so. -/
  | recalling (id : RequestId) (mark : Option (Nat × Nat))
  | notice
  /-- The server asked; these bodies of the same read are still to be dealt with. -/
  | answer (bodies : List String) (stop : Frame.Drained)

inductive Standing where
  /-- The call has its id and has given way. -/
  | fresh (serverId : String) (q : Question) (id : RequestId)
  | writing (purpose : Purpose) (w : Writing)
  | listening (q : Question) (id : RequestId) (mark : Option (Nat × Nat)) (deadline : Duration)
  /-- Nothing was read yet. -/
  | idle
  /-- A response is there and was not handed in yet. -/
  | handing (id : RequestId) (r : Response) (bodies : List String) (stop : Frame.Drained)
  /-- The stream ended, and the calls do not know yet. -/
  | closing
  | ended (e : Ending)

def recallOf (id : RequestId) : Message :=
  .ofNotification "$/cancelRequest" (.mkObj [("id", id.toCancelJson)])

def requestOf (q : Question) (id : RequestId) : Message :=
  .request ⟨Message.protocolVersion, id, q.method, q.params⟩

/-! ### Programs -/

/-- What a call does once its request was written, or could not be. -/
def pursuit (c : Nat) (q : Question) (id : RequestId) :
    Except HubError Unit → Program (Except HubError Json)
  | .error e => act (Hub.onClient c (·.forget id)) fun _ => .done (.error e)
  | .ok () => awaitAnswer c id q.method q.cancellation q.timeout

/-- What a call does that stopped waiting for its answer. -/
def verdict (c : Nat) (q : Question) (id : RequestId) (h : Hub) : Program (Except HubError Json) :=
  if h.isWithdrawn q.cancellation then withdraw c id
  else if (h.client c).isSettled id then
    act (fun h => (h.fromClient c (·.collect id)).2) fun h =>
      match (h.fromClient c (·.collect id)).1 with
      | some r => .done (resultOf r)
      | none => .done (.error .connectionClosed)
  else act (Hub.onClient c (·.forget id)) fun _ =>
    .done (.error (.requestTimeout q.method q.timeout))

def answered (c : Nat) (q : Question) (id : RequestId) (deadline : Duration) (h : Hub) : Bool :=
  h.isWithdrawn q.cancellation || (h.client c).isSettled id || h.hasPassed deadline

def listens (c : Nat) (q : Question) (id : RequestId) (deadline : Duration) :
    Program (Except HubError Json) :=
  await (answered c q id deadline) (fun h => h) (act (fun h => h) (verdict c q id))

def afterFrames (c : Nat) : Frame.Drained → Program Bool
  | .waiting rest => act (Hub.onClient c fun client => { client with buffer := rest }) fun _ =>
      .done true
  | .cleared _ => act (Hub.onClient c fun client => { client with buffer := [] }) fun _ =>
      .done true
  | .broken => act (Hub.onClient c breakDown) fun _ => .done false

/-- What the reader still has to do with what it read. -/
def remainder (c : Nat) (bodies : List String) (stop : Frame.Drained) : Program Bool :=
  (heedAll c bodies).bind fun _ => afterFrames c stop

def lastWord : Paused Job Hub Bool → Program Ending
  | .finished b => .done (.listened b)
  | .paused rest => act rest.abandon fun _ => .done (.listened false)

/-- The reader's program, which stops when nobody uses the client. -/
def watched (c : Nat) (p : Program Bool) : Program Ending :=
  (pauseAt (fun h => (h.client c).isDropped) p).bind lastWord

def Purpose.program (c : Nat) (w : Writing) : Purpose → Program Ending
  | request q id mark => (marked mark ((w.program c).bind (pursuit c q id))).map .asked
  | recalling _ mark =>
    (marked mark ((w.program c).bind fun _ => .done (.error .cancelled))).map .asked
  | notice => (w.program c).map .told
  | answer bodies stop => watched c ((w.program c).bind fun _ => remainder c bodies stop)

def Standing.program (c : Nat) : Standing → Program Ending
  | fresh serverId q id => (pursue c serverId q id).map .asked
  | writing purpose w => purpose.program c w
  | listening q id mark deadline =>
    (marked mark (listens c q id deadline)).map .asked
  | idle => watched c (readOnce c)
  | handing id r bodies stop =>
    watched c (await (fun _ => true) (fun h => h) (act (Hub.onClient c (·.deliver id r)) fun _ =>
      remainder c bodies stop))
  | closing =>
    watched c (await (fun _ => true) id (act (Hub.onClient c forgetAll) fun _ => .done false))
  | ended e => .done e

/-! ### Turns -/

/-- Where the reader comes to with the bodies of a read. -/
def hearOut (c : Nat) : List String → Frame.Drained → Hub → Hub × Standing
  | [], .waiting rest, h =>
    (h.onClient c fun client => { client with buffer := rest }, .ended (.listened true))
  | [], .cleared _, h =>
    (h.onClient c fun client => { client with buffer := [] }, .ended (.listened true))
  | [], .broken, h => (h.onClient c breakDown, .ended (.listened false))
  | body :: rest, stop, h =>
    match (Json.read? body).bind Message.classify? with
    | none => hearOut c rest stop h
    | some (.response r) =>
      match r.id with
      | none => hearOut c rest stop h
      | some id => (h, .handing id r rest stop)
    | some (.request r) =>
      let settings := ((h.registry.object? (h.client c).definition).getD default).settings
      let started := Writing.start c (answerTo (h.client c).folders settings r) h
      (started.1, .writing (.answer rest stop) started.2)
    | some (.notification n) => hearOut c rest stop (h.onClient c (·.heed n))

/-- Where a task comes to once its message was written, or could not be. -/
def Purpose.go (c : Nat) (written : Except HubError Unit) (h : Hub) : Purpose → Hub × Standing
  | request q id mark =>
    match written with
    | .error e => (Hub.unmark mark (h.onClient c (·.forget id)), .ended (.asked (.error e)))
    | .ok () =>
      ((Hub.startTimer q.timeout h).2, .listening q id mark (Hub.startTimer q.timeout h).1)
  | recalling _ mark => (Hub.unmark mark h, .ended (.asked (.error .cancelled)))
  | notice => (h, .ended (.told written))
  | answer bodies stop => hearOut c bodies stop h

/-- Where a call comes to that stopped waiting for its answer. -/
def settle (c : Nat) (q : Question) (id : RequestId) (mark : Option (Nat × Nat)) (h : Hub) :
    Hub × Standing :=
  let forgotten := h.onClient c (·.forget id)
  if h.isWithdrawn q.cancellation then
    if (h.client c).isOpen then
      let started := Writing.start c (recallOf id) forgotten
      (started.1, .writing (.recalling id mark) started.2)
    else (Hub.unmark mark forgotten, .ended (.asked (.error .cancelled)))
  else if (h.client c).isSettled id then
    let collected := h.fromClient c (·.collect id)
    (Hub.unmark mark collected.2, .ended (.asked
      (match collected.1 with
        | some r => resultOf r
        | none => .error .connectionClosed)))
  else (Hub.unmark mark forgotten, .ended (.asked (.error (.requestTimeout q.method q.timeout))))

def enrol (c : Nat) (serverId : String) (q : Question) (id : RequestId) (h : Hub) :
    Hub × Standing :=
  let registered := h.fromClient c (·.register id)
  if registered.1 then
    let marked := registered.2.mark q.cancellation ⟨serverId, q.method, id⟩
    let started := Writing.start c (requestOf q id) marked.2
    (started.1, .writing (.request q id marked.1) started.2)
  else (registered.2, .ended (.asked (.error .connectionClosed)))

def readOn (c : Nat) (h : Hub) : Hub × Standing :=
  let read := h.fromLink (h.client c).link (·.read readLimit)
  match read.1 with
  | .bytes received =>
    let drained := Frame.drain ((read.2.client c).buffer ++ received)
    hearOut c drained.1 drained.2 read.2
  | .ended => (read.2.onClient c close, .closing)

/-- Where a task is after its turn. -/
def Standing.go (c : Nat) (h : Hub) : Standing → Hub × Standing
  | fresh serverId q id => enrol c serverId q id h
  | writing purpose w =>
    match (w.go c h).2 with
    | .inl w' => ((w.go c h).1, writing purpose w')
    | .inr written => purpose.go c written (w.go c h).1
  | listening q id mark deadline =>
    if answered c q id deadline h then settle c q id mark h else (h, listening q id mark deadline)
  | idle => if (h.linkOf c).isReadable then readOn c h else (h, idle)
  | handing id r bodies stop => hearOut c bodies stop (h.onClient c (·.deliver id r))
  | closing => (h.onClient c forgetAll, ended (.listened false))
  | ended e => (h, ended e)

/-! ## Programs and places -/

def watchedStage (c : Nat) (st : Stage Job Hub Bool) : Stage Job Hub Ending :=
  match st.rest with
  | .done b => ⟨st.state, st.jobs, .done (.listened b)⟩
  | rest => ⟨st.state, st.jobs, watched c rest⟩

theorem watchedStage_waiting (h : Hub) (jobs : List Job) {p : Program Bool}
    (hwaits : p.result? = none) : watchedStage c ⟨h, jobs, p⟩ = ⟨h, jobs, watched c p⟩ := by
  cases p with
  | done b => cases hwaits
  | _ => rfl

theorem andThen_pauseAt {p : Program Bool} (hp : p.IsSettled) (h : Hub) (jobs : List Job) :
    (Stage.andThen ⟨h, jobs, pauseAt (fun h => (h.client c).isDropped) p⟩ lastWord) =
      watchedStage c ⟨h, jobs, p⟩ := by
  cases p with
  | done b => rfl
  | await ready abandon next => rfl
  | act update next => exact hp.elim
  | spawn job next => exact hp.elim

theorem legFrom_watched (p : Program Bool) (h : Hub) (jobs : List Job) :
    (watched c p).legFrom h jobs = watchedStage c (p.legFrom h jobs) := by
  unfold watched
  rw [legFrom_bind, legFrom_pauseAt]
  exact andThen_pauseAt (isSettled_legFrom p h jobs) _ _

/-- As long as the client is used, the reader goes on as it would alone. -/
theorem advance_watched {p : Program Bool} (hp : p.IsSettled) (hwaits : p.result? = none) {h : Hub}
    (hkept : (h.client c).isDropped = false) (jobs : List Job) :
    (watched c p).advance h jobs = watchedStage c (p.advance h jobs) := by
  cases p with
  | done b => cases hwaits
  | await ready abandon next =>
    unfold watched
    rw [advance_bind (by trivial) rfl, advance_pauseAt, if_neg (by simp [hkept])]
    exact andThen_pauseAt (hp.advance h jobs) _ _
  | act update next => exact hp.elim
  | spawn job next => exact hp.elim

theorem result?_bind {β : Type} {p : Program α} (hwaits : p.result? = none) (f : α → Program β) :
    (p.bind f).result? = none := by
  cases p with
  | done a => cases hwaits
  | _ => rfl

theorem watchedStage_remainder (bodies : List String) (stop : Frame.Drained) (h : Hub)
    (jobs : List Job) : watchedStage c ((remainder c bodies stop).legFrom h jobs) =
      ⟨(hearOut c bodies stop h).1, jobs, (hearOut c bodies stop h).2.program c⟩ := by
  induction bodies generalizing h with
  | nil => cases stop <;> rfl
  | cons body rest ih =>
    have hsplit : remainder c (body :: rest) stop =
        (heedBody c body).bind fun _ => remainder c rest stop := bind_assoc _ _ _
    rw [hsplit, legFrom_bind]
    unfold heedBody hearOut
    cases (Json.read? body).bind Message.classify? with
    | none => exact ih h
    | some m =>
      cases m with
      | response r =>
        dsimp only
        cases hid : r.id with
        | none =>
          rw [heedMessage_nobody hid]
          exact ih h
        | some id =>
          rw [heedMessage_response hid]
          rfl
      | request r =>
        -- The answer is written before the rest of the bodies is heard.
        change watchedStage c (Stage.andThen (((write c _).bind fun _ => .done ()).legFrom h jobs)
          _) = _
        have hwaits := (isSettled_program (c := c) (Writing.start c (answerTo (h.client c).folders
          ((h.registry.object? (h.client c).definition).getD default).settings r) h).2).2
        rw [legFrom_bind, legFrom_write, andThen_waiting hwaits, andThen_waiting, bind_assoc,
          watchedStage_waiting]
        · rfl
        · exact result?_bind hwaits _
        · exact result?_bind hwaits _
      | notification n => exact ih _

theorem advance_writing_bind (w : Writing) (k : Except HubError Unit → Program α) (h : Hub)
    (jobs : List Job) : ((w.program c).bind k).advance h jobs =
      match (w.go c h).2 with
      | .inl w' => ⟨(w.go c h).1, jobs, (w'.program c).bind k⟩
      | .inr r => (k r).legFrom (w.go c h).1 jobs := by
  obtain ⟨hsettled, hwaits⟩ := isSettled_program (c := c) w
  rw [advance_bind hsettled hwaits, advance_writing]
  cases (w.go c h).2 with
  | inl w' => exact andThen_waiting (isSettled_program w').2 _ _ _
  | inr r => rfl

theorem marked_waiting (mark : Option (Nat × Nat)) {p : Program α} (hp : p.IsSettled)
    (hwaits : p.result? = none) : (marked mark p).IsSettled ∧ (marked mark p).result? = none := by
  cases mark with
  | none => exact ⟨hp, hwaits⟩
  | some entry =>
    cases p with
    | done a => cases hwaits
    | await ready abandon next => exact ⟨trivial, rfl⟩
    | act update next => exact hp.elim
    | spawn job next => exact hp.elim

/-- A call's turn is that of its program without the mark. -/
theorem advance_asked (mark : Option (Nat × Nat)) {p : Program (Except HubError Json)}
    (hp : p.IsSettled) (hwaits : p.result? = none) (h : Hub) (jobs : List Job) :
    ((marked mark p).map Ending.asked).advance h jobs =
      (markedStage mark (p.advance h jobs)).andThen fun r => .done (.asked r) := by
  obtain ⟨hsettled, hwaits'⟩ := marked_waiting mark hp hwaits
  rw [Routine.map, advance_bind hsettled hwaits', advance_marked mark hp hwaits]

theorem bind_waiting {β : Type} {p : Program α} (hp : p.IsSettled) (hwaits : p.result? = none)
    (f : α → Program β) : (p.bind f).IsSettled ∧ (p.bind f).result? = none := by
  cases p with
  | done a => cases hwaits
  | await ready abandon next => exact ⟨trivial, rfl⟩
  | act update next => exact hp.elim
  | spawn job next => exact hp.elim

theorem advance_purpose (purpose : Purpose) (w : Writing) {h : Hub}
    (hkept : (h.client c).isDropped = false) :
    (purpose.program c w).advance h [] =
      ⟨((Standing.writing purpose w).go c h).1, [],
        ((Standing.writing purpose w).go c h).2.program c⟩ := by
  obtain ⟨hsettled, hwaits⟩ := isSettled_program (c := c) w
  simp only [Standing.go]
  cases purpose with
  | request q id mark =>
    obtain ⟨hbind, hbind'⟩ := bind_waiting hsettled hwaits (pursuit c q id)
    rw [Purpose.program, advance_asked mark hbind hbind', advance_writing_bind]
    cases (w.go c h).2 with
    | inl w' =>
      have hnext := isSettled_program (c := c) w'
      have hwaits' := bind_waiting hnext.1 hnext.2 (pursuit c q id)
      dsimp only
      rw [markedStage_waiting mark _ _ hwaits'.2,
        andThen_waiting (marked_waiting mark hwaits'.1 hwaits'.2).2]
      rfl
    | inr r =>
      cases r with
      | error e =>
        dsimp only [pursuit]
        rw [legFrom_act, legFrom_done, markedStage_done]
        rfl
      | ok _ =>
        have hlistens : (pursuit c q id (.ok ())).legFrom (w.go c h).1 [] =
            ⟨(Hub.startTimer q.timeout (w.go c h).1).2, [],
              listens c q id (Hub.startTimer q.timeout (w.go c h).1).1⟩ := rfl
        dsimp only
        rw [hlistens, markedStage_waiting mark _ _ rfl,
          andThen_waiting (marked_waiting mark (by trivial) rfl).2]
        rfl
  | recalling id mark =>
    obtain ⟨hbind, hbind'⟩ := bind_waiting hsettled hwaits
      (fun _ => .done (.error .cancelled) : _ → Program (Except HubError Json))
    rw [Purpose.program, advance_asked mark hbind hbind', advance_writing_bind]
    cases (w.go c h).2 with
    | inl w' =>
      have hnext := isSettled_program (c := c) w'
      have hwaits' := bind_waiting hnext.1 hnext.2
        (fun _ => .done (.error .cancelled) : _ → Program (Except HubError Json))
      dsimp only
      rw [markedStage_waiting mark _ _ hwaits'.2,
        andThen_waiting (marked_waiting mark hwaits'.1 hwaits'.2).2]
      rfl
    | inr r =>
      dsimp only
      rw [legFrom_done, markedStage_done]
      rfl
  | notice =>
    rw [Purpose.program, Routine.map, advance_writing_bind]
    cases (w.go c h).2 with
    | inl w' => rfl
    | inr r => rfl
  | answer bodies stop =>
    obtain ⟨hbind, hbind'⟩ := bind_waiting hsettled hwaits (fun _ => remainder c bodies stop)
    rw [Purpose.program, advance_watched hbind hbind' hkept, advance_writing_bind]
    cases (w.go c h).2 with
    | inl w' =>
      have hnext := isSettled_program (c := c) w'
      exact watchedStage_waiting _ _ (bind_waiting hnext.1 hnext.2 _).2
    | inr r => exact watchedStage_remainder bodies stop _ []

theorem andThen_markedStage (mark : Option (Nat × Nat)) {p : Program (Except HubError Json)}
    (hp : p.IsSettled) (hwaits : p.result? = none) (h : Hub) :
    ((markedStage mark ⟨h, [], p⟩).andThen fun r => .done (.asked r) : Stage Job Hub Ending) =
      ⟨h, [], (marked mark p).map .asked⟩ := by
  rw [markedStage_waiting mark _ _ hwaits, andThen_waiting (marked_waiting mark hp hwaits).2]
  rfl

theorem legFrom_verdict (q : Question) (id : RequestId) (mark : Option (Nat × Nat)) (h : Hub) :
    ((markedStage mark ((verdict c q id h).legFrom h [])).andThen fun r => .done (.asked r)) =
      ⟨(settle c q id mark h).1, [], (settle c q id mark h).2.program c⟩ := by
  unfold verdict settle
  split
  · -- The call was cancelled; the server is told if the client is still open.
    have hforget : (withdraw c id).legFrom h [] = legFrom (Routine.bind
        (if ((h.onClient c (·.forget id)).client c).isOpen then write c (recallOf id)
          else .done (.error .connectionClosed)) fun _ => .done (.error .cancelled))
          (h.onClient c (·.forget id)) [] := rfl
    have hopen : ((h.onClient c (·.forget id)).client c).isOpen = (h.client c).isOpen := by
      rw [Hub.client_onClient]
      split <;> rfl
    rw [hforget, hopen]
    split
    · have hstart := isSettled_program (c := c)
        (Writing.start c (recallOf id) (h.onClient c (·.forget id))).2
      have hwaits := bind_waiting hstart.1 hstart.2
        (fun _ => .done (.error .cancelled) : _ → Program (Except HubError Json))
      rw [legFrom_bind, legFrom_write, andThen_waiting hstart.2,
        andThen_markedStage mark hwaits.1 hwaits.2]
      rfl
    · rw [legFrom_bind, legFrom_done]
      change Stage.andThen (markedStage mark ⟨_, [], .done _⟩) _ = _
      rw [markedStage_done]
      rfl
  · split
    · rw [legFrom_act]
      cases hfound : (h.fromClient c (·.collect id)).1 <;>
      · dsimp only
        rw [legFrom_done, markedStage_done, hfound]
        rfl
    · rw [legFrom_act, legFrom_done, markedStage_done]
      rfl

theorem advance_fresh (serverId : String) (q : Question) (id : RequestId) (h : Hub) :
    ((pursue c serverId q id).map Ending.asked).advance h [] =
      ⟨(enrol c serverId q id h).1, [], (enrol c serverId q id h).2.program c⟩ := by
  have hpursue : (pursue c serverId q id).advance h [] =
      legFrom (if (h.fromClient c (·.register id)).1 then
          tracking q.cancellation ⟨serverId, q.method, id⟩
            (exchange c id q.method q.params q.cancellation q.timeout)
        else .done (.error .connectionClosed)) (h.fromClient c (·.register id)).2 [] := rfl
  rw [Routine.map, advance_bind (by trivial) rfl, hpursue]
  unfold enrol
  dsimp only
  split
  · have hexchange : exchange c id q.method q.params q.cancellation q.timeout =
        (write c (requestOf q id)).bind (pursuit c q id) :=
      congrArg (Routine.bind _) (funext fun r => by cases r <;> rfl)
    rw [legFrom_tracking, hexchange, legFrom_bind, legFrom_write]
    generalize (h.fromClient c (·.register id)).2.mark q.cancellation _ = marking
    have hstart := isSettled_program (c := c) (Writing.start c (requestOf q id) marking.2).2
    have hwaits := bind_waiting hstart.1 hstart.2 (pursuit c q id)
    rw [andThen_waiting hstart.2, andThen_markedStage _ hwaits.1 hwaits.2]
    rfl
  · rfl

theorem heedFrames_eq (received : Frame.Bytes) : heedFrames c received =
    act (fun h => h) fun h =>
      remainder c (Frame.drain ((h.client c).buffer ++ received)).1
        (Frame.drain ((h.client c).buffer ++ received)).2 := by
  refine congrArg (act fun h => h) (funext fun h => ?_)
  refine congrArg (Routine.bind (heedAll c _)) (funext fun _ => ?_)
  cases (Frame.drain ((h.client c).buffer ++ received)).2 <;> rfl

theorem watchedStage_readOnce (h : Hub) :
    watchedStage c ((readOnce c).advance h []) =
      ⟨(if (h.linkOf c).isReadable then readOn c h else (h, .idle)).1, [],
        (if (h.linkOf c).isReadable then readOn c h else (h, .idle)).2.program c⟩ := by
  have hreads : (readOnce c).advance h [] =
      if (h.linkOf c).isReadable then
        legFrom (match (h.fromLink (h.client c).link (·.read readLimit)).1 with
          | .bytes received => heedFrames c received
          | .ended => act (Hub.onClient c close) fun _ => await (fun _ => true) id
            (act (Hub.onClient c forgetAll) fun _ => .done false))
          (h.fromLink (h.client c).link (·.read readLimit)).2 []
      else ⟨h, [], readOnce c⟩ := rfl
  rw [hreads]
  split
  · unfold readOn
    dsimp only
    split
    · rw [heedFrames_eq, legFrom_act]
      exact watchedStage_remainder _ _ _ _
    · rfl
  · rfl

/-- A task in its turn comes to the program of the place that was computed. -/
theorem advance_program (st : Standing) {h : Hub} (hkept : (h.client c).isDropped = false) :
    (st.program c).advance h [] = ⟨(st.go c h).1, [], (st.go c h).2.program c⟩ := by
  cases st with
  | fresh serverId q id => exact advance_fresh serverId q id h
  | writing purpose w => exact advance_purpose purpose w hkept
  | listening q id mark deadline =>
    rw [Standing.program, advance_asked mark (by trivial) rfl, listens, advance_await]
    simp only [Standing.go]
    split
    · exact legFrom_verdict q id mark h
    · exact andThen_markedStage mark (by trivial) rfl h
  | idle =>
    rw [Standing.program, advance_watched (by trivial) rfl hkept]
    simp only [Standing.go]
    exact watchedStage_readOnce h
  | handing id r bodies stop =>
    rw [Standing.program, advance_watched (by trivial) rfl hkept]
    exact watchedStage_remainder bodies stop _ []
  | closing =>
    rw [Standing.program, advance_watched (by trivial) rfl hkept]
    rfl
  | ended e => rfl

/-! ## Beginning -/

def Errand.begin (c : Nat) (h : Hub) : Errand → Hub × Standing
  | ask q =>
    if (h.client c).isOpen = false then (h, .ended (.asked (.error .connectionClosed)))
    else if h.isWithdrawn q.cancellation = true then (h, .ended (.asked (.error .cancelled)))
    else
      ((h.fromClient c takeId).2,
        .fresh (h.client c).serverId q (.number (h.client c).nextId))
  | tell method params =>
    if (h.client c).isOpen then
      let started := Writing.start c (.ofNotification method params) h
      (started.1, .writing .notice started.2)
    else (h, .ended (.told (.error .connectionClosed)))
  | listen => (h, .idle)

theorem legFrom_errand (e : Errand) {h : Hub} (hkept : (h.client c).isDropped = false) :
    (e.program c).legFrom h [] = ⟨(e.begin c h).1, [], (e.begin c h).2.program c⟩ := by
  cases e with
  | ask q =>
    have hbegin : (request c q.method q.params q.cancellation q.timeout).legFrom h [] =
        Desk.firstLeg c q h := rfl
    simp only [Errand.program, Routine.map, Errand.begin]
    rw [legFrom_bind, hbegin, firstLeg_eq]
    split
    · rfl
    · split
      · rfl
      · exact andThen_waiting rfl _ _ _
  | tell method params =>
    have hnotify : (notify c method params).legFrom h [] =
        legFrom (if (h.client c).isOpen then write c (.ofNotification method params)
          else .done (.error .connectionClosed)) h [] := rfl
    simp only [Errand.program, Routine.map, Errand.begin]
    rw [legFrom_bind, hnotify]
    split
    · rw [legFrom_write]
      exact andThen_waiting (isSettled_program _).2 _ _ _
    · rfl
  | listen =>
    -- What follows the reading is bound twice; put together it is the last word.
    have hlisten : (Client.listen c).map Ending.listened =
        (pauseWhen (fun h => (h.client c).isDropped) (readOnce c)).bind lastWord := by
      refine (congrArg (Routine.bind · _) (bind_assoc _ _ _)).trans ((bind_assoc _ _ _).trans ?_)
      exact congrArg (Routine.bind _) (funext fun paused => by cases paused <;> rfl)
    have hgoesOn : ((pauseWhen (fun h => (h.client c).isDropped) (readOnce c)).bind
        lastWord).legFrom h [] =
          legFrom ((if (h.client c).isDropped then .done (.paused (readOnce c))
            else pauseAt (fun h => (h.client c).isDropped) (readOnce c)).bind lastWord) h [] := rfl
    rw [Errand.program, hlisten, hgoesOn, if_neg (by simp [hkept])]
    exact legFrom_watched (readOnce c) h []

theorem result?_program (st : Standing) : (st.program c).result? = match st with
    | .ended e => some e
    | _ => none := by
  cases st with
  | fresh serverId q id => rfl
  | writing purpose w =>
    obtain ⟨hsettled, hwaits⟩ := isSettled_program (c := c) w
    cases purpose with
    | request q id mark =>
      have hrequest := bind_waiting hsettled hwaits (pursuit c q id)
      exact result?_bind (marked_waiting mark hrequest.1 hrequest.2).2 _
    | recalling id mark =>
      have hrecall := bind_waiting hsettled hwaits
        (fun _ => .done (.error .cancelled) : _ → Program (Except HubError Json))
      exact result?_bind (marked_waiting mark hrecall.1 hrecall.2).2 _
    | notice => exact result?_bind hwaits _
    | answer bodies stop =>
      have hanswer := bind_waiting hsettled hwaits fun _ => remainder c bodies stop
      refine result?_bind ?_ _
      generalize (w.program c).bind _ = p at hanswer
      cases p with
      | done b => cases hanswer.2
      | _ => rfl
  | listening q id mark deadline =>
    exact result?_bind (marked_waiting mark (p := listens c q id deadline) trivial rfl).2 _
  | idle => rfl
  | handing id r bodies stop => rfl
  | closing => rfl
  | ended e => rfl

end Switchboard

end LanguageHub
