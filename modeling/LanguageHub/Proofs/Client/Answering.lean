import LanguageHub.Client.Reader
import LanguageHub.Proofs.Routine.Leg
import LanguageHub.Proofs.Routine.Schedule
import LanguageHub.Proofs.Routine.Stopping
import LanguageHub.Proofs.Tables

/-!
# How one call goes

The calls on one client and the reader that hands in what the server answers take turns in any
order, and whatever happens elsewhere may happen in between. Here is what a call promises the
others, and what it relies on: nobody else makes its id wait for an answer, and the answers that
are kept for its id were all handed in for it. Then what it comes to is one of these answers or a
failure of its own.
-/

namespace LanguageHub

/-! ## A client's desk -/

/-- What a client knows of its requests. -/
structure Ledger where
  next : Nat
  pending : List RequestId
  answers : List (RequestId × Response)

def Client.ledger (client : Client) : Ledger := ⟨client.nextId, client.pending, client.answers⟩

/-- What a client knows of its requests, if it is there. -/
def Hub.ledger? (c : Nat) (h : Hub) : Option Ledger := h.clients[c]?.map (·.ledger)

namespace Client

open Routine

/-- What a call asks. -/
structure Question where
  method : String
  params : Json
  cancellation : Option Nat
  timeout : Duration

/-- A call with the id that it took, unless it failed at once. -/
structure Caller where
  id? : Option RequestId
  rest : Program (Except HubError Json)

structure Desk where
  hub : Hub
  /-- The calls in the order in which they began. -/
  callers : List Caller
  /-- The message that the reader deals with, and how far it is. -/
  message? : Option Message
  reader : Program Unit

/-- What happens next. -/
inductive Turn where
  | ask (q : Question)
  /-- A call goes on, if it can. -/
  | goOn (i : Nat)
  /-- The reader comes to a message, if it is done with the last one. -/
  | hear (m : Message)
  /-- The reader goes on, if it can. -/
  | read
  | others (change : Hub → Hub)

namespace Desk

/-- Nothing was asked yet. -/
def ofHub (h : Hub) : Desk := ⟨h, [], none, .done ()⟩

variable (c : Nat)

/-- The first leg of a call. -/
def firstLeg (q : Question) (h : Hub) : Stage Job Hub (Except HubError Json) :=
  (request c q.method q.params q.cancellation q.timeout).legFrom h []

def step (d : Desk) : Turn → Desk
  | .ask q =>
    let st := firstLeg c q d.hub
    let id? := if st.result?.isSome then none else d.hub.ledger? c |>.map (.number ·.next)
    { d with hub := st.state, callers := d.callers ++ [⟨id?, st.rest⟩] }
  | .goOn i =>
    match d.callers[i]? with
    | none => d
    | some caller =>
      let st := caller.rest.advance d.hub []
      { d with hub := st.state, callers := d.callers.set i { caller with rest := st.rest } }
  | .hear m =>
    if d.reader.result?.isSome then
      let st := (heedMessage c m).legFrom d.hub []
      { d with hub := st.state, message? := some m, reader := st.rest }
    else d
  | .read =>
    let st := d.reader.advance d.hub []
    { d with hub := st.state, reader := st.rest }
  | .others change => { d with hub := change d.hub }

def run (d : Desk) (turns : List Turn) : Desk := turns.foldl (step c) d

theorem run_append (d : Desk) (before after : List Turn) :
    d.run c (before ++ after) = (d.run c before).run c after := List.foldl_append

end Desk

/-- The ledger has nothing new in it. -/
def Shrinks (c : Nat) (h h' : Hub) : Prop :=
  ∀ l, h.ledger? c = some l → ∃ l', h'.ledger? c = some l' ∧ l'.next = l.next ∧
    l'.pending ⊆ l.pending ∧ l'.answers ⊆ l.answers

/-- A change that is none of this client's calls' and reader's business: at most requests end
with it. -/
def Unconcerned (c : Nat) (change : Hub → Hub) : Prop := ∀ h, Shrinks c h (change h)

/-- In its turn after these the reader hands in a response for a call that waits for it: the
call is not over, and the response carries the id that it registered. -/
structure HandsIn (c : Nat) (d : Desk) (turn : Turn) (i : Nat) (r : Response) : Prop where
  turn : turn = .read
  message : d.message? = some (.response r)
  reader : d.reader.result? = none
  caller : ∃ caller id l, d.callers[i]? = some caller ∧ caller.id? = some id ∧
    caller.rest.result? = none ∧ r.id = some id ∧ d.hub.ledger? c = some l ∧ id ∈ l.pending

/-- What only a server's answer makes a call come to. -/
def IsAnswer : Except HubError Json → Prop
  | .ok _ => True
  | .error (.serverError _ _) => True
  | .error _ => False

end Client

open Routine Pact

/-! ## Ledgers -/

namespace Ledger

def take (l : Ledger) : Ledger := { l with next := l.next + 1 }

def register (id : RequestId) (l : Ledger) : Ledger := { l with pending := l.pending ++ [id] }

def forget (id : RequestId) (l : Ledger) : Ledger :=
  { l with pending := l.pending.filter (· != id) }

def collect (id : RequestId) (l : Ledger) : Ledger :=
  { l with answers := l.answers.filter (·.1 != id) }

def deliver (id : RequestId) (r : Response) (l : Ledger) : Ledger :=
  if l.pending.contains id then { l.forget id with answers := l.answers ++ [(id, r)] } else l

end Ledger

namespace Hub

variable {c : Nat} {h : Hub}

theorem ledger?_onClient {f : Client → Client} {g : Ledger → Ledger}
    (hg : ∀ x, (f x).ledger = g x.ledger) : (h.onClient c f).ledger? c = (h.ledger? c).map g := by
  simp [ledger?, onClient, Function.comp_def, hg]

theorem ledger_client {l : Ledger} (hl : h.ledger? c = some l) : (h.client c).ledger = l := by
  obtain ⟨x, hx, rfl⟩ := Option.map_eq_some_iff.mp hl
  simp [client, hx]

theorem ledger?_fromClient {α : Type} {f : Client → α × Client} {l : Ledger}
    (hl : h.ledger? c = some l) :
    (h.fromClient c f).2.ledger? c = some (f (h.client c)).2.ledger := by
  obtain ⟨x, hx, rfl⟩ := Option.map_eq_some_iff.mp hl
  simp [ledger?, fromClient, onClient, hx]

end Hub

namespace Client

variable {c : Nat} {id : RequestId} {α β : Type}

/-- The id waits for an answer. -/
def Awaits (c : Nat) (id : RequestId) (h : Hub) : Prop :=
  ∃ l, h.ledger? c = some l ∧ id ∈ l.pending

/-- All that a call with this id does to the client's ledger. -/
def Serves (c : Nat) (id : RequestId) (h h' : Hub) : Prop :=
  ∀ l, h.ledger? c = some l → ∃ l', h'.ledger? c = some l' ∧ l'.next = l.next ∧
    (∀ id' ∈ l'.pending, id' ≠ id → id' ∈ l.pending) ∧ l'.answers ⊆ l.answers

theorem Serves.refl (h : Hub) : Serves c id h h := fun l hl =>
  ⟨l, hl, rfl, fun _ hmem _ => hmem, fun _ hmem => hmem⟩

theorem Serves.trans {h h' h'' : Hub} (first : Serves c id h h') (second : Serves c id h' h'') :
    Serves c id h h'' := by
  intro l hl
  obtain ⟨l', hl', hnext', hpending', hanswers'⟩ := first l hl
  obtain ⟨l'', hl'', hnext'', hpending'', hanswers''⟩ := second l' hl'
  exact ⟨l'', hl'', hnext''.trans hnext',
    fun id' hmem hne => hpending' id' (hpending'' id' hmem hne) hne,
    fun a hmem => hanswers' (hanswers'' hmem)⟩

/-- The pact of a call with the others on its client. The responses that were handed in for its
id are remembered beside the hub. -/
def answering (c : Nat) (id : RequestId) : Pact Job Hub where
  World := Hub × List Response
  state := Prod.fst
  move w h := (h, w.2)
  state_move _ _ := rfl
  allows _ _ _ := True
  inv w := ∃ l, w.1.ledger? c = some l ∧ ∀ r, (id, r) ∈ l.answers → r ∈ w.2
  guarantee w w' := Serves c id w.1 w'.1 ∧ w'.2 = w.2
  rely w w' := w.2 ⊆ w'.2 ∧ (Awaits c id w'.1 → Awaits c id w.1)
  starts _ _ := True

/-- The call is over: its id waits no more, and if it came to what the server said, that was
handed in for it. -/
structure Concludes (m : Moment (answering c id)) (result : Except HubError Json) : Prop where
  sound : m.Sound
  idle : ¬ Awaits c id m.state
  heard : IsAnswer result → ∃ r ∈ m.now.2, result = resultOf r

/-! ## What is of no concern -/

/-- The program leaves the client's ledger as it is. -/
def Overlooks (c : Nat) (p : Program α) : Prop := ∀ o, p.Preserves (·.ledger? c = o)

theorem serves_of_eq {h h' : Hub} (hsame : h'.ledger? c = h.ledger? c) : Serves c id h h' :=
  fun l hl => ⟨l, hsame.trans hl, rfl, fun _ hmem _ => hmem, fun _ hmem => hmem⟩

theorem sound_of_serves {m : Moment (answering c id)} (hm : m.Sound) {h : Hub}
    (hserves : Serves c id m.state h) : (m.set h).Sound := by
  obtain ⟨l, hl, hheard⟩ := hm.inv
  obtain ⟨l', hl', -, -, hanswers⟩ := hserves l hl
  exact ⟨⟨l', hl', fun r hr => hheard r (hanswers hr)⟩,
    ⟨hm.guarantee.1.trans hserves, hm.guarantee.2⟩, fun _ _ => trivial⟩

theorem sound_of_inv {w : (answering c id).World} (hw : (answering c id).inv w) :
    (Moment.resume w).Sound :=
  ⟨hw, ⟨.refl _, rfl⟩, fun _ _ => trivial⟩

/-- What leaves the ledger alone may run in between, and an id that does not wait still does
not wait after it. -/
theorem keeps_of_overlooks {p : Program α} (hp : Overlooks c p) {good : α → Prop}
    (hgood : p.EndsWith good) {m : Moment (answering c id)} (hm : m.Sound) (known : Prop)
    (hidle : known → ¬ Awaits c id m.state) :
    p.Keeps (fun _ _ => True) m fun m a =>
      m.Sound ∧ (known → ¬ Awaits c id m.state) ∧ good a := by
  induction p generalizing m with
  | done a => exact ⟨hm, hidle, hgood⟩
  | act update next ih =>
    intro _
    have hsame : (update m.state).ledger? c = m.state.ledger? c := (hp _).1 m.state rfl
    refine ih m.state (fun o => (hp o).2 _) (hgood _)
      (sound_of_serves hm (serves_of_eq hsame)) fun hknown hawaits => ?_
    obtain ⟨l, hl, hmem⟩ := hawaits
    rw [Moment.state_set, hsame] at hl
    exact hidle hknown ⟨l, hl, hmem⟩
  | spawn job next ih =>
    exact ih (m := m.spawned job) hp hgood ⟨hm.inv, hm.guarantee, fun _ _ => trivial⟩ hidle
  | await ready abandon next ih =>
    refine ⟨hm, fun w hinv hrely => ⟨trivial, fun _ => ?_⟩⟩
    exact ih (fun o => (hp o).2) hgood (sound_of_inv hinv) fun hknown hawaits =>
      hidle hknown (hrely.2 hawaits)

/-! ## Writing -/

theorem overlooks_withLock (n : LockName) {p : Program α} (hp : Overlooks c p) :
    Overlooks c (Program.withLock n p) := fun o => by
  refine ⟨fun _ ho => ho, fun h => ?_⟩
  have hheld : Routine.Preserves (·.ledger? c = o)
      ((Routine.waitUntil fun h' => (h'.lock n).isHeldBy (h.enterLock n).1).bind fun _ => p) :=
    ⟨fun _ ho => ho, hp o⟩
  exact hheld.ensuring fun _ ho => ho

theorem overlooks_transfer (i : Nat) (m : Message) (size : Nat) :
    ∀ fuel sent, Overlooks c (transfer i m size fuel sent)
  | 0, _ => fun _ => trivial
  | fuel + 1, sent => fun o => by
    rw [transfer_succ]
    refine ⟨fun _ ho => ho, fun _ ho => ho, fun h => ?_⟩
    change Routine.Preserves _ (carryOn i m size fuel sent
      (h.fromLink (h.client i).link (·.write m size sent)).1)
    unfold carryOn
    split
    · trivial
    · split
      · trivial
      · exact overlooks_transfer i m size fuel _ o

/-- Writing leaves all ledgers as they are. -/
theorem overlooks_write (i : Nat) (m : Message) : Overlooks c (write i m) :=
  overlooks_withLock _ (overlooks_transfer i m _ _ _)

theorem overlooks_notify (i : Nat) (method : String) (params : Json) :
    Overlooks c (notify i method params) := fun o => by
  refine ⟨fun _ ho => ho, fun h => ?_⟩
  change Routine.Preserves _ (if (h.client i).isOpen then _ else _ : Program _)
  split
  · exact overlooks_write i _ o
  · trivial

theorem error_of_write {l l' : Link} {m : Message} {size sent : Nat} {e : HubError}
    (h : l.write m size sent = (.error e, l')) : ∃ reason, e = .transport reason := by
  unfold Link.write at h
  split at h
  · rename_i reason _
    simp only [Prod.mk.injEq, Except.error.injEq] at h
    exact ⟨reason, h.1.symm⟩
  · cases h

/-- Writing fails with the connection alone. -/
def IsTransported (result : Except HubError Unit) : Prop :=
  ∀ e, result = .error e → ∃ reason, e = .transport reason

theorem endsWith_transfer (i : Nat) (m : Message) (size : Nat) :
    ∀ fuel sent, (transfer i m size fuel sent).EndsWith IsTransported
  | 0, _ => fun e he => by cases he
  | fuel + 1, sent => by
    rw [transfer_succ]
    intro h
    change Routine.EndsWith _ (carryOn i m size fuel sent
      (h.fromLink (h.client i).link (·.write m size sent)).1)
    unfold carryOn
    split
    · rename_i e he
      intro e' he'
      obtain rfl : e = e' := Except.error.inj he'
      exact error_of_write (Prod.ext he rfl)
    · split
      · exact fun e he => by cases he
      · exact endsWith_transfer i m size fuel _

theorem endsWith_write (i : Nat) (m : Message) : (write i m).EndsWith IsTransported := fun h => by
  have hheld : Routine.EndsWith IsTransported
      ((Routine.waitUntil fun h' => (h'.lock (.writer i)).isHeldBy
        (h.enterLock (.writer i)).1).bind fun _ =>
          transfer i m m.frame.length m.frame.length 0) :=
    endsWith_transfer i m _ _ _
  exact hheld.ensuring _

/-! ## The call -/

theorem ledger?_forget (h : Hub) :
    (h.onClient c (·.forget id)).ledger? c = (h.ledger? c).map (·.forget id) :=
  Hub.ledger?_onClient fun _ => rfl

theorem serves_forget (id : RequestId) (h : Hub) :
    Serves c id h (h.onClient c (·.forget id)) := fun l hl =>
  ⟨l.forget id, by rw [ledger?_forget, hl]; rfl, rfl,
    fun _ hmem _ => (List.mem_filter.mp hmem).1, fun _ hmem => hmem⟩

theorem not_awaits_forget (h : Hub) : ¬ Awaits c id (h.onClient c (·.forget id)) := by
  rintro ⟨l, hl, hmem⟩
  rw [ledger?_forget, Option.map_eq_some_iff] at hl
  obtain ⟨l', -, rfl⟩ := hl
  simp [Ledger.forget] at hmem

variable {m : Moment (answering c id)}

/-- A call that is given up is over. -/
theorem concludes_forget (hm : m.Sound) {e : HubError} (he : ¬ IsAnswer (.error e)) :
    Concludes (m.set (m.state.onClient c (·.forget id))) (.error e) :=
  ⟨sound_of_serves hm (serves_forget id _), by rw [Moment.state_set]; exact not_awaits_forget _,
    fun h => absurd h he⟩

theorem keeps_withdraw (hm : m.Sound) :
    (withdraw c id).Keeps (fun _ _ => True) m Concludes := fun _ => by
  have hforgotten := sound_of_serves hm (serves_forget id m.state)
  have hidle : True → ¬ Awaits c id (m.set (m.state.onClient c (·.forget id))).state := fun _ => by
    rw [Moment.state_set]
    exact not_awaits_forget _
  change Keeps _ ((notify c "$/cancelRequest" (.mkObj [("id", id.toCancelJson)])).bind fun _ =>
    done (Except.error HubError.cancelled)) _ _
  refine keeps_bind.mpr ((keeps_of_overlooks (overlooks_notify c _ _) (endsWith_true _)
    hforgotten True hidle).mono ?_)
  exact fun m' _ h => ⟨h.1, h.2.1 trivial, fun hanswer => hanswer.elim⟩

theorem serves_collect (h : Hub) :
    Serves c id h (h.fromClient c (·.collect id)).2 := fun l hl => by
  have hclient := Hub.ledger_client hl
  refine ⟨l.collect id, ?_, rfl, fun _ hmem _ => hmem, fun _ hmem => (List.mem_filter.mp hmem).1⟩
  rw [Hub.ledger?_fromClient hl, ← hclient]
  rfl

/-- What a call picks up was handed in for it. -/
theorem concludes_collect (hm : m.Sound) (hidle : ¬ Awaits c id m.state) :
    Concludes (m.set (m.state.fromClient c (·.collect id)).2)
      (match (m.state.fromClient c (·.collect id)).1 with
        | some r => resultOf r
        | none => .error .connectionClosed) := by
  obtain ⟨l, hl, hheard⟩ := hm.inv
  replace hl : m.state.ledger? c = some l := hl
  have hclient : (m.state.client c).ledger = l := Hub.ledger_client hl
  refine ⟨sound_of_serves hm (serves_collect _), ?_, fun hanswer => ?_⟩
  · rw [Moment.state_set]
    rintro ⟨l', hl', hmem⟩
    refine hidle ⟨l, hl, ?_⟩
    rw [Hub.ledger?_fromClient hl] at hl'
    obtain rfl := Option.some.inj hl'
    rw [← hclient]
    exact hmem
  · have hfound : (m.state.fromClient c (·.collect id)).1 = List.lookup id l.answers := by
      rw [← hclient]
      rfl
    rw [hfound] at hanswer ⊢
    cases hr : List.lookup id l.answers with
    | none => simp [hr, IsAnswer] at hanswer
    | some r =>
      exact ⟨r, hheard r (mem_of_lookup hr), rfl⟩

theorem keeps_awaitAnswer (hm : m.Sound) (method : String) (cancellation : Option Nat)
    (timeout : Duration) :
    (awaitAnswer c id method cancellation timeout).Keeps (fun _ _ => True) m Concludes := by
  intro _
  refine ⟨sound_of_serves hm (serves_of_eq rfl), fun w hinv _ =>
    ⟨trivial, fun _ => ?_⟩⟩
  have hresumed : ((Moment.resume w).set w.1).Sound :=
    sound_of_serves (sound_of_inv hinv) (.refl _)
  intro _
  change Keeps _ (if w.1.isWithdrawn cancellation then withdraw c id
    else if (w.1.client c).isSettled id then _ else _ : Program _) ((Moment.resume w).set w.1) _
  split
  · exact keeps_withdraw hresumed
  · split
    · rename_i hsettled
      have hidle : ¬ Awaits c id ((Moment.resume w).set w.1).state := by
        rintro ⟨l, hl, hmem⟩
        rw [← Hub.ledger_client hl] at hmem
        simp only [isSettled, Bool.not_eq_true', List.contains_eq_mem, decide_eq_false_iff_not]
          at hsettled
        exact hsettled hmem
      intro _
      have hcollect := concludes_collect hresumed hidle
      change Keeps _ (match (w.1.fromClient c (·.collect id)).1 with
        | some r => done (resultOf r)
        | none => done (.error .connectionClosed) : Program _) _ _
      rw [Moment.state_set] at hcollect
      split <;> rename_i hfound <;> rw [hfound] at hcollect <;> exact hcollect
    · exact fun _ => concludes_forget hresumed fun h => h

theorem keeps_exchange (hm : m.Sound) (q : Question) :
    (exchange c id q.method q.params q.cancellation q.timeout).Keeps (fun _ _ => True) m
      Concludes := by
  refine keeps_bind.mpr ((keeps_of_overlooks (overlooks_write c _)
    (endsWith_write c _) hm False nofun).mono ?_)
  rintro m (e | _) ⟨hsound, -, htransported⟩
  · obtain ⟨reason, rfl⟩ := htransported e rfl
    exact fun _ => concludes_forget hsound fun h => h
  · exact keeps_awaitAnswer hsound _ _ _

/-- What a call does once it has its id. -/
def pursue (c : Nat) (serverId : String) (q : Question) (id : RequestId) :
    Program (Except HubError Json) := do
  giveWay
  if ← modifyGet (Hub.fromClient c (·.register id)) then
    tracking q.cancellation ⟨serverId, q.method, id⟩
      (exchange c id q.method q.params q.cancellation q.timeout)
  else pure (.error .connectionClosed)

theorem Concludes.set {result : Except HubError Json} (h : Concludes m result) {h' : Hub}
    (hsame : h'.ledger? c = m.state.ledger? c) : Concludes (m.set h') result := by
  refine ⟨sound_of_serves h.sound (serves_of_eq hsame), ?_, h.heard⟩
  rw [Moment.state_set]
  rintro ⟨l, hl, hmem⟩
  exact h.idle ⟨l, hsame.symm.trans hl, hmem⟩

theorem keeps_tracking {p : Program (Except HubError Json)} (cancellation : Option Nat)
    (r : PendingRequest) (hm : m.Sound)
    (hp : ∀ m : Moment (answering c id), m.Sound → p.Keeps (fun _ _ => True) m Concludes) :
    (tracking cancellation r p).Keeps (fun _ _ => True) m Concludes := by
  cases cancellation with
  | none => exact hp m hm
  | some i =>
    intro _
    refine keeps_ensuring ((hp _ ?_).mono fun _ _ h _ => h.set rfl)
    exact sound_of_serves hm (serves_of_eq rfl)

theorem register_of_not {x : Client} (h : (x.register id).1 = false) : (x.register id).2 = x := by
  unfold register at h ⊢
  split at h
  · cases h
  · rename_i hclosed
    rw [if_neg hclosed]

theorem serves_register (id : RequestId) (h : Hub) :
    Serves c id h (h.fromClient c (·.register id)).2 := by
  intro l hl
  have hclient := Hub.ledger_client hl
  rw [Hub.ledger?_fromClient hl, ← hclient]
  unfold register
  split
  · exact ⟨_, rfl, rfl, fun id' hmem hne => by simpa [ledger, hne] using hmem,
      fun _ hmem => hmem⟩
  · exact ⟨_, rfl, rfl, fun _ hmem _ => hmem, fun _ hmem => hmem⟩

/-- A call whose id does not wait yet comes to what was handed in for it, or it fails. -/
theorem keeps_pursue (hm : m.Sound) (hidle : ¬ Awaits c id m.state) (serverId : String)
    (q : Question) : (pursue c serverId q id).Keeps (fun _ _ => True) m Concludes := by
  refine ⟨hm, fun w hinv hrely => ⟨trivial, fun _ _ => ?_⟩⟩
  have hregistered := sound_of_serves (sound_of_inv hinv) (serves_register id w.1)
  change Keeps _ (if (w.1.fromClient c (·.register id)).1 then _ else _ : Program _) _ _
  split
  · exact keeps_tracking _ _ hregistered fun m hm => keeps_exchange hm q
  · rename_i hclosed
    refine ⟨hregistered, ?_, fun h => h.elim⟩
    rw [Moment.state_set]
    rintro ⟨l, hl, hmem⟩
    obtain ⟨l₀, hl₀, -⟩ := hinv
    refine hidle (hrely.2 ⟨l₀, hl₀, ?_⟩)
    replace hl : (w.1.fromClient c (·.register id)).2.ledger? c = some l := hl
    rw [Hub.ledger?_fromClient hl₀] at hl
    obtain rfl := Option.some.inj hl
    rw [← Hub.ledger_client hl₀]
    have hsame : ((w.1.client c).register id).2 = w.1.client c :=
      register_of_not (Bool.eq_false_iff.mpr hclosed)
    rwa [hsame] at hmem

end Client

end LanguageHub
