import LanguageHub.Hub.Documents
import LanguageHub.Proofs.Lifecycle.Running
import LanguageHub.Proofs.Routine.Stopping
import LanguageHub.Proofs.Routine.Team

/-!
# Closing a document

A document that is closed is dropped by all its sessions in one turn, before any of their servers
is told. From then on no session has it, until someone connects it again.
-/

namespace LanguageHub

open Routine

namespace Hub

/-- No session to which documents are routed has the document. -/
def Lacks (uri : String) (h : Hub) : Prop := h.connectedSessions uri = []

/-- From one hub to the other sessions may lose the document, and none comes to have it. -/
structure Loses (uri : String) (h h' : Hub) : Prop where
  roster : h'.roster = h.roster
  lookup : ∀ r, (h'.session r).synchronizer? uri = (h.session r).synchronizer? uri ∨
    (h'.session r).synchronizer? uri = none

/-- The change touches neither the sessions nor their synchronizers. -/
structure Bypasses (h h' : Hub) : Prop where
  roster : h'.roster = h.roster
  sessions : h'.sessions = h.sessions
  synchronizers : h'.synchronizers = h.synchronizers

variable {uri : String} {s : Nat} {h h' : Hub}

theorem Loses.of_eq (hroster : h'.roster = h.roster) (hsessions : h'.sessions = h.sessions) :
    Loses uri h h' where
  roster := hroster
  lookup r := by
    rw [session, session, hsessions]
    exact .inl rfl

theorem lookup_detach (session : Session) (v : String) : (session.detach uri).synchronizer? v =
    if v = uri then none else session.synchronizer? v := lookup_filter ..

theorem session_detached (r : Nat) : (h.onSession s fun x => (x.detach uri).touched).session r =
    if s = r ∧ r < h.sessions.length then ((h.session r).detach uri).touched
    else h.session r := getD_modify ..

theorem loses_detach : Loses uri h (h.onSession s fun x => (x.detach uri).touched) where
  roster := rfl
  lookup r := by
    rw [session_detached]
    split
    · exact .inr ((lookup_detach _ _).trans (if_pos rfl))
    · exact .inl rfl

theorem isConnected_eq_false {session : Session} :
    session.isConnected uri = false ↔ session.synchronizer? uri = none := by
  rw [Session.isConnected, Option.isSome_eq_false_iff, Option.isNone_iff_eq_none]

theorem lacks_iff :
    Lacks uri h ↔ ∀ r ∈ h.roster, (h.session r).synchronizer? uri = none := by
  rw [Lacks, connectedSessions, List.filter_eq_nil_iff]
  refine forall₂_congr fun r _ => ?_
  rw [Bool.not_eq_true, isConnected_eq_false]

theorem Lacks.loses (hlacks : Lacks uri h) (hloses : Loses uri h h') : Lacks uri h' := by
  rw [lacks_iff, hloses.roster] at *
  intro r hr
  rcases hloses.lookup r with hsame | hnone
  · exact hsame.trans (hlacks r hr)
  · exact hnone

end Hub

/-! ## Telling the servers -/

theorem preserves_get {inv : Hub → Prop} : (get : Program Hub).Preserves inv :=
  ⟨fun _ h => h, fun _ => trivial⟩

theorem preserves_waitUntil {inv : Hub → Prop} {ready : Hub → Bool} :
    (waitUntil ready : Program Unit).Preserves inv := ⟨fun _ h => h, trivial⟩

section Bypassing

variable {s : Nat} {α : Type} {inv : Hub → Prop} {p : Program α}
  (hinv : ∀ h h', Hub.Bypasses h h' → inv h → inv h')

include hinv

theorem preserves_modify {f : Hub → Hub} (hf : ∀ h, Hub.Bypasses h (f h)) :
    (modify f : Program Unit).Preserves inv := ⟨fun h => hinv _ _ (hf h), fun _ => trivial⟩

theorem preserves_modifyGet {f : Hub → α × Hub} (hf : ∀ h, Hub.Bypasses h (f h).2) :
    (modifyGet f : Program α).Preserves inv := ⟨fun h => hinv _ _ (hf h), fun _ => trivial⟩

theorem Routine.Preserves.inLine {n : LockName} {p : Nat → Program α}
    (hp : ∀ ticket, (p ticket).Preserves inv) : (Program.inLine n p).Preserves inv :=
  .bind (preserves_modifyGet hinv fun _ => ⟨rfl, rfl, rfl⟩) fun ticket =>
    .ensuring (hp ticket) fun h => hinv h _ ⟨rfl, rfl, rfl⟩

theorem Routine.Preserves.withLock (hp : p.Preserves inv) (n : LockName) :
    (Program.withLock n p).Preserves inv :=
  .inLine hinv fun _ => .bind preserves_waitUntil fun _ => hp

namespace Client

variable {c : Nat}

theorem preserves_transfer (m : Message) (size : Nat) :
    ∀ fuel sent, (transfer c m size fuel sent).Preserves inv
  | 0, _ => trivial
  | fuel + 1, sent => by
    rw [transfer_succ]
    refine .bind preserves_waitUntil fun _ =>
      .bind (preserves_modifyGet hinv fun _ => ⟨rfl, rfl, rfl⟩) fun count => ?_
    cases count with
    | error e => trivial
    | ok count =>
      rw [carryOn]
      split
      · trivial
      · exact preserves_transfer m size fuel _

theorem preserves_tell (n : DocumentNotice) : (tell c n).Preserves inv :=
  .bind ⟨fun _ h => h, fun _ => trivial⟩ fun client => by
    split
    · exact (preserves_transfer hinv _ _ _ _).withLock hinv _
    · trivial

end Client

namespace Session

theorem preserves_tell (n : DocumentNotice) : (tell s n).Preserves inv :=
  .bind preserves_get fun h => by
    split
    · trivial
    · rename_i c _
      have htell : (Client.holding c (Client.tell c n)).Preserves inv :=
        .bind (preserves_modify hinv fun _ => ⟨rfl, rfl, rfl⟩) fun _ =>
          (Client.preserves_tell hinv n).ensuring fun h => hinv h _ ⟨rfl, rfl, rfl⟩
      refine .bind htell fun r => ?_
      cases r <;> trivial

end Session

end Bypassing

theorem Session.preserves_disconnect {uri : String} {s : Nat} {inv : Hub → Prop}
    (hinv : ∀ h h', Hub.Loses uri h h' → inv h → inv h') :
    (disconnect s uri).Preserves inv := by
  have hbypass : ∀ h h', Hub.Bypasses h h' → inv h → inv h' := fun h h' hpast =>
    hinv h h' (.of_eq hpast.roster hpast.sessions)
  refine .bind preserves_get fun h => ?_
  dsimp only
  split
  · trivial
  · refine .bind ⟨fun h => hinv _ _ Hub.loses_detach, fun _ => trivial⟩ fun _ =>
      .bind preserves_get fun h => .bind (.withLock hbypass (.bind preserves_get fun h =>
        .bind (preserves_tell hbypass _) fun told => ?_) _) fun _ => ?_
    · split
      · exact preserves_modify hbypass fun _ => ⟨rfl, rfl, rfl⟩
      · trivial
    · split
      · exact .bind preserves_get fun _ => trivial
      · trivial

/-! ## In one turn -/

namespace Hub

variable {uri : String} {s : Nat} {h : Hub}

/-- The document was dropped by these sessions, and the roster is this. -/
def Without (uri : String) (roster : List Nat) (gone : Nat → Prop) (h : Hub) : Prop :=
  h.roster = roster ∧ ∀ r, gone r → (h.session r).synchronizer? uri = none

variable {roster : List Nat} {gone : Nat → Prop}

theorem without_loses : ∀ h h', Loses uri h h' → Without uri roster gone h →
    Without uri roster gone h' := by
  rintro h h' hloses ⟨hroster, hgone⟩
  refine ⟨hloses.roster.trans hroster, fun r hr => ?_⟩
  rcases hloses.lookup r with hsame | hnone
  · exact hsame.trans (hgone r hr)
  · exact hnone

theorem lookup_unknown (hs : ¬ s < h.sessions.length) : (h.session s).synchronizer? uri = none := by
  rw [session, List.getElem?_eq_none (Nat.le_of_not_lt hs)]
  rfl

theorem Without.detach (hwithout : Without uri roster gone h) :
    Without uri roster (fun r => gone r ∨ r = s)
      (h.onSession s fun x => (x.detach uri).touched) := by
  refine ⟨hwithout.1, fun r hr => ?_⟩
  rw [session_detached]
  split
  · exact (lookup_detach _ _).trans (if_pos rfl)
  · rename_i hout
    rcases hr with hr | rfl
    · exact hwithout.2 r hr
    · exact lookup_unknown fun hknown => hout ⟨rfl, hknown⟩

/-- A session drops the document before it waits. -/
theorem without_leg_disconnect (hwithout : Without uri roster gone h) (jobs : List Job) :
    Without uri roster (fun r => gone r ∨ r = s)
      ((Session.disconnect s uri).legFrom h jobs).state := by
  have hkeeps : (Session.disconnect s uri).Preserves (Without uri roster fun r => gone r ∨ r = s) :=
    Session.preserves_disconnect without_loses
  have hrest := hkeeps.2 h
  rw [Session.disconnect, legFrom_get]
  cases hlookup : (h.session s).synchronizer? uri with
  | none =>
    refine ⟨hwithout.1, fun r hr => ?_⟩
    rcases hr with hr | rfl
    · exact hwithout.2 r hr
    · exact hlookup
  | some k =>
    -- The first leg drops the document; what is left of the routine only loses it.
    dsimp only [Routine.bind] at hrest
    rw [hlookup] at hrest
    exact Preserves.kept_legFrom (hrest.2 h) hwithout.detach jobs

/-- All sessions drop the document before any of them waits. -/
theorem without_ofRoutines (sessions : List Nat) (hwithout : Without uri roster gone h)
    (jobs : List Job) : Without uri roster (fun r => gone r ∨ r ∈ sessions)
      (Team.ofRoutines (sessions.map fun s => Session.disconnect s uri) h jobs).state := by
  induction sessions generalizing gone h jobs with
  | nil => simpa [Team.ofRoutines] using hwithout
  | cons s rest ih =>
    have hrest := ih (without_leg_disconnect (s := s) hwithout jobs)
      ((Session.disconnect s uri).legFrom h jobs).jobs
    exact ⟨hrest.1, fun r hr => hrest.2 r (or_assoc.mpr (hr.imp_right List.mem_cons.mp))⟩

theorem lacks_leg_disconnectDocument :
    Lacks uri ((disconnectDocument uri).legFrom h []).state := by
  have hstart : Without uri h.roster (fun r => (h.session r).synchronizer? uri = none) h :=
    ⟨rfl, fun _ hr => hr⟩
  obtain ⟨hroster, hgone⟩ := without_ofRoutines (h.connectedSessions uri) hstart []
  have hstate : ((disconnectDocument uri).legFrom h []).state = (Team.ofRoutines
      ((h.connectedSessions uri).map fun s => Session.disconnect s uri) h []).state := by
    change (Routine.legFrom (Routine.bind (Routine.all _) fun _ => pure ()) h []).state = _
    rw [legFrom_bind, legFrom_all, Stage.andThen]
    split <;> rfl
  rw [hstate, lacks_iff, hroster]
  intro r hr
  by_cases hconnected : (h.session r).isConnected uri = true
  · exact hgone r (.inr (List.mem_filter.mpr ⟨hr, hconnected⟩))
  · exact hgone r (.inl (isConnected_eq_false.mp (Bool.eq_false_iff.mpr hconnected)))

/-- Once a document is closed no session has it, however its servers are told and whatever else
happens, unless someone connects it again. -/
theorem lacks_of_disconnectDocument (h : Hub) {moves : List (Move Hub)}
    (hmoves : ∀ move ∈ moves, move.Preserve (Lacks uri)) :
    Lacks uri ((Stage.ofRoutine (disconnectDocument uri) h).run moves).state := by
  have hkeeps : (disconnectDocument uri).Preserves (Lacks uri) := by
    refine .bind preserves_get fun h => .bind (.all fun p hp => ?_) fun _ => trivial
    obtain ⟨s, -, rfl⟩ := List.mem_map.mp hp
    exact Session.preserves_disconnect fun _ _ hloses hlacks => hlacks.loses hloses
  exact Stage.kept_run (hkeeps.legFrom h []) lacks_leg_disconnectDocument hmoves

/-- Time passes while a server is told that the document is closed. -/
theorem lacks_of_disconnectDocument_told :
    let settings : SyncSettings := ⟨.incremental, none⟩
    let h : Hub := { Hub.new .empty [] ⟨⟨1000⟩, ⟨1000⟩, ⟨0⟩, .notification⟩ with
      sessions := [{ Session.new "a" 0 .application [] .factory with
        state := .started, running := some ⟨0, .none⟩, documents := [("file:///d", 0)] }]
      roster := [0]
      clients := [.new "a" 0 [] ⟨1000⟩ 0]
      links := [⟨"a", "/", .fresh⟩]
      synchronizers := [.start "file:///d" "x" settings "t"] }
    let moves : List (Move Hub) :=
      [.goOn, .others fun h => { h with clock := ⟨h.clock.nanos + 1⟩ }, .goOn, .goOn]
    let st := (Stage.ofRoutine (disconnectDocument "file:///d") h).run moves
    h.connectedSessions "file:///d" = [0] ∧
      (∀ move ∈ moves, move.Preserve (Lacks "file:///d")) ∧ Lacks "file:///d" st.state ∧
      st.result?.isSome = true ∧ ((st.state.link 0).messagesOut.length = 1) := by
  intro settings h moves st
  have hmoves : ∀ move ∈ moves, move.Preserve (Lacks "file:///d") := by
    simp only [moves, List.forall_mem_cons]
    exact ⟨trivial, fun _ hlacks => hlacks, trivial, trivial, by simp⟩
  have hfacts : (fun st : Stage Job Hub Unit => st.result?.isSome = true ∧
      (st.state.link 0).messagesOut.length = 1) st := by
    decide +kernel
  exact ⟨rfl, hmoves, lacks_of_disconnectDocument h hmoves, hfacts⟩

/-- A restart that began before the document was closed opens it again. -/
theorem connected_after_disconnectDocument :
    let h : Hub := { Hub.new .empty [] ⟨⟨1000⟩, ⟨1000⟩, ⟨0⟩, .notification⟩ with
      sessions := [.new "a" 0 .application [] .factory], roster := [0]
      launches := [("a", [.opened none none])] }
    let answer (id : Nat) : Response :=
      ⟨"2.0", some (.number id), some (.mkObj [("capabilities", .mkObj [])]), none⟩
    let delivered (c id : Nat) : Lifecycle.Action :=
      .others (Hub.onClient c (·.deliver (.number id) (answer id)))
    let actions : List Lifecycle.Action :=
      .call 0 (.connect 0 ⟨"file:///d", "/d", ⟨"x", []⟩⟩ "t") :: List.replicate 8 (.goOn 0) ++
        [.goOn 1, delivered 0 1] ++ List.replicate 4 (.goOn 1) ++ [.goOn 2, .goOn 2,
          .call 1 (.restartSession 0)] ++ List.replicate 7 (.goOn 2) ++ [delivered 0 2] ++
        List.replicate 7 (.goOn 2) ++ [.goOn 3, .goOn 2,
          .call 2 (.disconnectDocument "file:///d"), .goOn 4, delivered 1 1, .goOn 2] ++
        List.replicate 4 (.goOn 3) ++ [.goOn 4, .goOn 4]
    let m := Lifecycle.run (.ofState h) actions
    m.state.outcomes.map (·.1) = [0, 2, 1] ∧ m.state.connectedSessions "file:///d" = [0] := by
  decide +kernel

end Hub

end LanguageHub
