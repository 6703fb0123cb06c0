import LanguageHub.Feature.Request
import LanguageHub.Proofs.Client.Letters
import LanguageHub.Proofs.Merge.Progress
import LanguageHub.Proofs.Routine.Stopping

/-!
# Dropped calls

The owner of a call may drop it before its end. That cancels the call, but its requests are dropped
with it and none of them goes on to notice. So no server is told anything.

Laws: dropping a call at any moment leaves every link and every client's requests as they are.
-/

namespace LanguageHub

open Routine

/-- Nothing is said to any server, and no request is given up or answered. -/
structure Hub.SaysNothing (h h' : Hub) : Prop where
  links : h'.links = h.links
  ledgers : ∀ c, (h'.client c).ledger = (h.client c).ledger
  isCancelled : ∀ i, h.isCancelled i = true → h'.isCancelled i = true

namespace Hub.SaysNothing

theorem refl (h : Hub) : h.SaysNothing h := ⟨rfl, fun _ => rfl, fun _ hcancelled => hcancelled⟩

theorem trans {h h' h'' : Hub} (first : h.SaysNothing h') (second : h'.SaysNothing h'') :
    h.SaysNothing h'' where
  links := second.links.trans first.links
  ledgers c := (second.ledgers c).trans (first.ledgers c)
  isCancelled i hcancelled := second.isCancelled i (first.isCancelled i hcancelled)

theorem leaveLock (n : LockName) (ticket : Nat) (h : Hub) : h.SaysNothing (h.leaveLock n ticket) :=
  ⟨rfl, fun _ => rfl, fun _ hcancelled => hcancelled⟩

theorem release (c : Nat) (h : Hub) : h.SaysNothing (h.onClient c Client.release) where
  links := rfl
  ledgers k := by
    rw [Hub.client_onClient]
    split
    · rename_i hk
      rw [← hk.1]
      rfl
    · rfl
  isCancelled _ hcancelled := hcancelled

theorem onCancellation (i : Nat) (f : Cancellation → Cancellation)
    (hf : ∀ x, x.isCancelled = true → (f x).isCancelled = true) (h : Hub) :
    h.SaysNothing (h.onCancellation i f) where
  links := rfl
  ledgers _ := rfl
  isCancelled k hcancelled := by
    unfold Hub.isCancelled Hub.onCancellation Hub.cancellation
    rw [Hub.getD_modify]
    split
    · rename_i hk
      obtain rfl := hk.1
      exact hf _ hcancelled
    · exact hcancelled

end Hub.SaysNothing

/-! ## Requests -/

namespace Client

variable {α : Type}

theorem drops_transfer (c : Nat) (m : Message) (size fuel sent : Nat) :
    (transfer c m size fuel sent).Drops Hub.SaysNothing := by
  induction fuel generalizing sent with
  | zero => trivial
  | succ fuel ih =>
    rw [transfer_succ]
    refine Drops.bind (drops_waitUntil .refl _) fun _ => Drops.bind (fun _ => trivial) fun r => ?_
    unfold carryOn
    split
    · trivial
    · split
      · trivial
      · exact ih _

theorem drops_write (c : Nat) (m : Message) : (write c m).Drops Hub.SaysNothing :=
  Drops.bind (fun _ => trivial) fun ticket =>
    (Drops.bind (drops_waitUntil .refl _) fun _ => drops_transfer ..).ensuring
      (Hub.SaysNothing.leaveLock (.writer c) ticket) .trans

theorem drops_notify (c : Nat) (method : String) (params : Json) :
    (notify c method params).Drops Hub.SaysNothing := by
  refine Drops.bind (fun _ => trivial) fun client => ?_
  split
  · exact drops_write c _
  · trivial

theorem drops_awaitAnswer (c : Nat) (id : RequestId) (method : String) (cancellation : Option Nat)
    (timeout : Duration) :
    (awaitAnswer c id method cancellation timeout).Drops Hub.SaysNothing := by
  refine Drops.bind (fun _ => trivial) fun deadline => Drops.bind (drops_waitUntil .refl _)
    fun _ => Drops.bind (fun _ => trivial) fun h => ?_
  split
  · exact Drops.bind (fun _ => trivial) fun _ => (drops_notify c _ _).bind fun _ => trivial
  · split
    · refine Drops.bind (fun _ => trivial) fun r => ?_
      cases r <;> trivial
    · exact Drops.bind (fun _ => trivial) fun _ => trivial

theorem drops_request (c : Nat) (method : String) (params : Json) (cancellation : Option Nat)
    (timeout : Duration) :
    (request c method params cancellation timeout).Drops Hub.SaysNothing := by
  have hexchange : ∀ id, (exchange c id method params cancellation timeout).Drops
      Hub.SaysNothing := by
    refine fun id => (drops_write c _).bind fun r => ?_
    cases r with
    | error e => exact Drops.bind (fun _ => trivial) fun _ => trivial
    | ok _ => exact drops_awaitAnswer c id method cancellation timeout
  refine Drops.bind (fun _ => trivial) fun h => ?_
  split
  · trivial
  · split
    · trivial
    · refine Drops.bind (fun _ => trivial) fun id => Drops.bind (drops_waitUntil .refl _)
        fun _ => Drops.bind (fun _ => trivial) fun registered => ?_
      split
      · cases cancellation with
        | none => exact hexchange id
        | some i =>
          exact Drops.bind (fun _ => trivial) fun token => (hexchange id).ensuring
            (Hub.SaysNothing.onCancellation i _ fun _ h => h) .trans
      · trivial

theorem drops_ask (c : Nat) (method : String) (params : Json) (cancellation : Option Nat) :
    (ask c method params cancellation).Drops Hub.SaysNothing :=
  Drops.bind (fun _ => trivial) fun _ => drops_request c method params cancellation _

theorem drops_holding (c : Nat) {p : Program α} (hp : p.Drops Hub.SaysNothing) :
    (holding c p).Drops Hub.SaysNothing :=
  Drops.bind (fun _ => trivial) fun _ => hp.ensuring (Hub.SaysNothing.release c) .trans

end Client

theorem Session.drops_ask {α : Type} (s : Nat) (method : String) (params : Json)
    (cancellation : Option Nat) (read : Json → Option α) :
    (Session.ask s method params cancellation read).Drops Hub.SaysNothing := by
  refine Drops.bind (fun _ => trivial) fun h => ?_
  split
  · trivial
  · exact Drops.bind (Client.drops_holding _ (Client.drops_ask _ method params cancellation))
      fun _ => trivial

theorem Feature.drops_allUsages (uri : String) (position : Position) (cancellation s : Nat) :
    (Feature.allUsages s uri position cancellation).Drops Hub.SaysNothing := by
  refine Drops.bind (fun _ => trivial) fun h => Drops.bind (Drops.all (fun p hp => ?_) .trans)
    fun _ => trivial
  obtain ⟨kind, -, rfl⟩ := List.mem_map.mp hp
  exact (Session.drops_ask s _ _ _ _).bind fun _ => trivial

theorem Feature.drops_requestTo (feature : Feature) (uri : String) (cancellation s : Nat) :
    (feature.requestTo uri cancellation s).Drops Hub.SaysNothing := by
  refine Drops.bind (fun _ => trivial) fun serverId => ?_
  cases feature with
  | usages position =>
    exact (Feature.drops_allUsages uri position cancellation s).bind fun _ => trivial
  | _ => exact (Session.drops_ask s _ _ _ _).bind fun _ => trivial

/-! ## Calls -/

namespace Merge

variable {α : Type} {method : String} {c : Nat} {requests : List (Program (ServerAnswer α))}

theorem drops_merge (hrequests : ∀ p ∈ requests, p.Drops Hub.SaysNothing) :
    (merge method c requests).Drops Hub.SaysNothing := by
  refine (Drops.all hrequests .trans).pauseWhen_bind _ (fun rest hrest => ?_) fun answers => ?_
  · exact Drops.bind (fun _ => trivial) fun deadline => (hrest.giveUpWhen _).bind fun _ => trivial
  · refine Drops.bind (fun _ => trivial) fun h => ?_
    split
    · trivial
    · exact fun _ => trivial

/-- What dropping a call does to the hub: the call is cancelled, and nobody is told. -/
theorem saysNothing_of_drop (hsome : requests ≠ [])
    (hrequests : ∀ p ∈ requests, p.Drops Hub.SaysNothing) (h : Hub) (moves : List (Move Hub)) :
    let st := (Stage.ofRoutine (call method c requests) h).run moves
    st.state.SaysNothing (st.rest.abandon st.state) ∧
      (st.result? = none → c < st.state.cancellations.length →
        (st.rest.abandon st.state).isCancelled c = true) := by
  intro st
  have hrun : st = { (Stage.ofRoutine (merge method c requests) h).run moves with
      rest := ((Stage.ofRoutine (merge method c requests) h).run moves).rest.onAbandon
        (Hub.cancel c) } := run_call hsome h moves
  have hdrops : ((Stage.ofRoutine (merge method c requests) h).run moves).rest.Drops
      Hub.SaysNothing := Stage.drops_run ((drops_merge hrequests).legFrom h []) moves
  have hsettled : ((Stage.ofRoutine (merge method c requests) h).run moves).rest.IsSettled :=
    Stage.isSettled_run (isSettled_legFrom _ h []) moves
  generalize (Stage.ofRoutine (merge method c requests) h).run moves = inner
    at hrun hdrops hsettled
  rw [hrun]
  obtain ⟨s, jobs, rest⟩ := inner
  have hcancel : s.SaysNothing (s.cancel c) :=
    .onCancellation c _ (fun _ _ => rfl) s
  cases rest with
  | await ready abandon next =>
    have hleft := hdrops.1 (s.cancel c)
    refine ⟨hcancel.trans hleft, fun _ hthere => hleft.isCancelled c ?_⟩
    unfold Hub.isCancelled Hub.cancel Hub.onCancellation Hub.cancellation
    rw [Hub.getD_modify, if_pos ⟨rfl, hthere⟩]
    rfl
  | done r => exact ⟨.refl s, fun hnone => by cases hnone⟩
  | act update next => exact hsettled.elim
  | spawn job next => exact hsettled.elim

end Merge

/-- Dropping a question that is under way cancels it, but nothing is written to any server, and no
client gives up a request of it. -/
theorem FeatureRequest.quiet_of_drop (r : FeatureRequest) (hsome : r.sessions ≠ []) (h : Hub)
    (moves : List (Move Hub)) :
    let st := (Stage.ofRoutine r.run h).run moves
    let dropped := st.rest.abandon st.state
    dropped.links = st.state.links ∧
      (∀ c, (dropped.client c).pending = (st.state.client c).pending) ∧
      (st.result? = none → r.cancellation < st.state.cancellations.length →
        dropped.isCancelled r.cancellation = true) := by
  have hrequests : ∀ p ∈ r.sessions.map (r.feature.requestTo r.uri r.cancellation),
      p.Drops Hub.SaysNothing := by
    intro p hp
    obtain ⟨s, -, rfl⟩ := List.mem_map.mp hp
    exact Feature.drops_requestTo r.feature r.uri r.cancellation s
  obtain ⟨hquiet, hcancelled⟩ :=
    Merge.saysNothing_of_drop (by simpa using hsome) hrequests h moves
  exact ⟨hquiet.links, fun c => congrArg Ledger.pending (hquiet.ledgers c), hcancelled⟩

/-- A question that was written is dropped. -/
theorem FeatureRequest.quiet_of_drop_written :
    let h := { Hub.new .empty [] default with
      clients := [Client.new "py" 0 [] ⟨1000⟩ 0]
      links := [⟨"py", "", .fresh⟩]
      sessions := [{ Session.new "py" 0 default [] default with
        state := .started, running := some ⟨0, default⟩ }]
      cancellations := [.new] }
    let r : FeatureRequest := ⟨.hover ⟨0, 0⟩, "file:///a.py", [0], 0⟩
    let st := (Stage.ofRoutine r.run h).run [.goOn, .goOn, .goOn]
    let dropped := st.rest.abandon st.state
    r.sessions ≠ [] ∧ st.result? = none ∧ (dropped.client 0).pending = [.number 1] ∧
      dropped.isCancelled 0 = true := by
  intro h r st dropped
  have hsome : r.sessions ≠ [] := by decide
  have hbusy : st.result?.isNone = true := by decide +kernel
  have hpending : (st.state.client 0).pending = [.number 1] := by decide +kernel
  have hthere : r.cancellation < ((Stage.ofRoutine r.run h).run
      [.goOn, .goOn, .goOn]).state.cancellations.length := by decide +kernel
  have hnone : st.result? = none := Option.isNone_iff_eq_none.mp hbusy
  have hquiet := FeatureRequest.quiet_of_drop r hsome h [.goOn, .goOn, .goOn]
  exact ⟨hsome, hnone, (hquiet.2.1 0).trans hpending, hquiet.2.2 hnone hthere⟩

/-- A question was written whole and not answered, and it is dropped: its server, to which more
could be written, is not told, and the client goes on to wait for the answer. -/
theorem FeatureRequest.untold_of_drop :
    let h := { Hub.new .empty [] default with
      clients := [Client.new "py" 0 [] ⟨1000⟩ 0]
      links := [⟨"py", "", .fresh⟩]
      sessions := [{ Session.new "py" 0 default [] default with
        state := .started, running := some ⟨0, default⟩ }]
      cancellations := [.new] }
    let r : FeatureRequest := ⟨.hover ⟨0, 0⟩, "file:///a.py", [0], 0⟩
    let st := (Stage.ofRoutine r.run h).run [.goOn, .goOn, .goOn]
    let dropped := st.rest.abandon st.state
    st.result?.isNone = true ∧
      (dropped.linkOf 0).outgoing.map (fun o => (o.message.asked?, o.isWhole)) =
        [(some (.number 1), true)] ∧
      (dropped.linkOf 0).outgoing.any (·.message.isRecall) = false ∧
      (dropped.linkOf 0).isWritable = true ∧ (dropped.client 0).answers.isEmpty = true ∧
      (dropped.client 0).pending = [.number 1] := by
  decide +kernel

end LanguageHub
