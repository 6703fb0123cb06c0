import LanguageHub.Proofs.Lifecycle.Counting
import LanguageHub.Proofs.Lifecycle.Disconnecting
import LanguageHub.Proofs.Routine.Relying

/-!
# Opening documents again

A restart that ends well has connected every document again that was connected when it began, in
its first version and with its last text, as long as nobody else takes a document from the
session. The list of these documents is the restart's own: it is lost with a restart that fails.
-/

namespace LanguageHub

open Routine

namespace Hub

/-- The session has this synchronizer for its document. -/
def Has (s : Nat) (sync : Synchronizer) (h : Hub) : Prop :=
  ∃ k, (h.session s).synchronizer? sync.uri = some k ∧ h.synchronizers[k]? = some sync

/-- Every document of the session has one synchronizer, its own. -/
structure IsFiled (s : Nat) (h : Hub) : Prop where
  nodup : ((h.session s).documents.map (·.1)).Nodup
  synchronized : ∀ uri k, (uri, k) ∈ (h.session s).documents →
    ∃ sync, h.synchronizers[k]? = some sync ∧ sync.uri = uri

/-- From one hub to the other the session keeps all its documents as they are. -/
structure Retains (s : Nat) (h h' : Hub) : Prop where
  known : s < h.sessions.length → s < h'.sessions.length
  filed : h.IsFiled s → h'.IsFiled s
  documents : ∀ sync, Has s sync h → Has s sync h'

variable {s : Nat} {h h' h'' : Hub} {sync other : Synchronizer}

theorem Retains.refl (s : Nat) (h : Hub) : Retains s h h := ⟨id, id, fun _ => id⟩

theorem Retains.trans (first : Retains s h h') (second : Retains s h' h'') : Retains s h h'' :=
  ⟨second.known ∘ first.known, second.filed ∘ first.filed,
    fun sync hsync => second.documents sync (first.documents sync hsync)⟩

theorem Bypasses.retains (hpast : Bypasses h h') : Retains s h h' where
  known := by rw [hpast.sessions]; exact id
  filed hfiled := by
    have hsession : h'.session s = h.session s := by rw [session, session, hpast.sessions]
    refine ⟨by rw [hsession]; exact hfiled.nodup, ?_⟩
    rw [hsession, hpast.synchronizers]
    exact hfiled.synchronized
  documents sync hsync := by
    rwa [Has, session, hpast.sessions, hpast.synchronizers]

theorem Has.known (hsync : Has s sync h) : s < h.sessions.length := by
  obtain ⟨k, hlookup, -⟩ := hsync
  by_contra hunknown
  simp [lookup_unknown hunknown] at hlookup

theorem Has.mem_synchronizers (hsync : Has s sync h) :
    sync ∈ (h.session s).documents.map fun (_, k) => h.synchronizer k := by
  obtain ⟨k, hlookup, hk⟩ := hsync
  exact List.mem_map.mpr ⟨(sync.uri, k), mem_of_lookup hlookup, by simp [synchronizer, hk]⟩

theorem IsFiled.uris (hfiled : h.IsFiled s) :
    ((h.session s).documents.map fun (_, k) => h.synchronizer k).map (·.uri) =
      (h.session s).documents.map (·.1) := by
  rw [List.map_map]
  refine List.map_congr_left fun (uri, k) hmem => ?_
  obtain ⟨sync, hk, huri⟩ := hfiled.synchronized uri k hmem
  simp [synchronizer, hk, huri]

theorem lookup_addDocument (hs : s < h.sessions.length) (uri : String) :
    ((Session.addDocument s sync h).2.session s).synchronizer? uri =
      if uri = sync.uri then some h.synchronizers.length else (h.session s).synchronizer? uri := by
  rw [Lifecycle.session_addDocument sync hs, Session.synchronizer?, Session.attach,
    List.lookup_append, lookup_filter]
  by_cases huri : uri = sync.uri
  · simp [huri]
  · have hskip : (uri == sync.uri) = false := by simpa using huri
    simp [huri, List.lookup_cons, hskip, Session.synchronizer?]

theorem has_addDocument (hs : s < h.sessions.length) :
    Has s sync (Session.addDocument s sync h).2 :=
  ⟨h.synchronizers.length, by rw [lookup_addDocument hs, if_pos rfl],
    by simp [Session.addDocument, onSession]⟩

/-- Another document stays as it is. -/
theorem Has.addDocument (hother : Has s other h) (hne : other.uri ≠ sync.uri) :
    Has s other (Session.addDocument s sync h).2 := by
  obtain ⟨k, hlookup, hk⟩ := id hother
  refine ⟨k, by rw [lookup_addDocument hother.known, if_neg hne, hlookup], ?_⟩
  exact (List.getElem?_append_left (List.getElem?_eq_some_iff.mp hk).1).trans hk

end Hub

/-! ## Restarting -/

section Reaching

open Pact

variable {s : Nat} {sync other : Synchronizer} {α : Type}

/-- What a program comes to while the others keep the documents of the session. -/
abbrev Retaining (s : Nat) (P : Hub → Prop) (p : Program α) (Q : α → Hub → Prop) : Prop :=
  (among Job (Hub.Retains s)).Reaches P p Q

/-- There is such a session. -/
def Hub.Knows (s : Nat) (h : Hub) : Prop := s < h.sessions.length

theorem Counting.retaining {p : Program α} (hp : Counting s p) :
    Retaining s (Hub.Knows s) p fun _ => Hub.Knows s :=
  reaches_of_preserves (Conducts.preserves hp fun _ _ hcounts => hcounts.known)
    fun _ _ hretains => hretains.known

namespace Session

theorem preserves_sendOpen {inv : Hub → Prop} (hinv : ∀ h h', Hub.Bypasses h h' → inv h → inv h')
    (k : Nat) : (sendOpen s k).Preserves inv :=
  .bind preserves_get fun h => .bind (preserves_tell hinv _) fun told => by
    split
    · exact preserves_modify hinv fun _ => ⟨rfl, rfl, rfl⟩
    · trivial

/-- Opening a document at the server comes after it is connected, and leaves it so. -/
theorem retaining_opening {inv : Hub → Prop}
    (hretains : ∀ h h', Hub.Retains s h h' → inv h → inv h') (k : Nat) :
    Retaining s inv (Program.withFreeLock (.send k) (sendOpen s k) >>= fun _ => pure k)
      fun _ => inv := by
  have hpast : ∀ h h', Hub.Bypasses h h' → inv h → inv h' := fun h h' hpast =>
    hretains h h' hpast.retains
  exact reaches_of_preserves (.bind (.inLine hpast fun _ => preserves_sendOpen hpast k)
    fun _ => trivial) hretains

theorem retaining_openDocument (sync : Synchronizer) :
    Retaining s (Hub.Knows s) (openDocument s sync) fun _ h => h.Knows s ∧ Hub.Has s sync h :=
  .bind (Pact.reaches_modifyGet (Q := fun _ h => Hub.Has s sync h)
    fun _ hs => Hub.has_addDocument hs) fun k =>
      (retaining_opening (fun _ _ hretains => hretains.documents sync) k).weaken
        (fun _ => id) fun _ _ hsync => ⟨hsync.known, hsync⟩

theorem retaining_openDocument_other (sync : Synchronizer) (hne : other.uri ≠ sync.uri) :
    Retaining s (Hub.Has s other) (openDocument s sync) fun _ => Hub.Has s other :=
  .bind (Pact.reaches_modifyGet (Q := fun _ h => Hub.Has s other h)
    fun _ hother => hother.addDocument hne) fun k =>
      retaining_opening (fun _ _ hretains => hretains.documents other) k

/-- The synchronizer with which a document is opened again. -/
def renewed (settings : SyncSettings) (sync : Synchronizer) : Synchronizer :=
  .start sync.uri sync.languageId settings sync.lastText

variable {settings : SyncSettings}

theorem retaining_reopen_other : ∀ {documents : List Synchronizer},
    (∀ sync ∈ documents, other.uri ≠ sync.uri) →
      Retaining s (Hub.Has s other) (reopen s settings documents) fun _ => Hub.Has s other
  | [], _ => .pure _ fun _ => id
  | sync :: rest, hne => by
    rw [List.forall_mem_cons] at hne
    exact .bind (retaining_openDocument_other (renewed settings sync) hne.1) fun _ =>
      retaining_reopen_other hne.2

/-- Each document in the list is connected again. -/
theorem retaining_reopen {documents : List Synchronizer} (hnodup : (documents.map (·.uri)).Nodup)
    (hsync : sync ∈ documents) :
    Retaining s (Hub.Knows s) (reopen s settings documents)
      fun _ => Hub.Has s (renewed settings sync) := by
  induction documents with
  | nil => cases hsync
  | cons first rest ih =>
    rw [List.map_cons, List.nodup_cons] at hnodup
    refine .bind (retaining_openDocument (renewed settings first)) fun _ => ?_
    rcases List.mem_cons.mp hsync with rfl | hrest
    · have hothers : ∀ other ∈ rest, (renewed settings sync).uri ≠ other.uri :=
        fun other hother heq => hnodup.1 (List.mem_map.mpr ⟨other, hother, heq.symm⟩)
      exact (retaining_reopen_other hothers).weaken (fun _ h => h.2) fun _ _ => id
    · exact (ih hnodup.2 hrest).weaken (fun _ h => h.1) fun _ _ => id

theorem retaining_restart :
    Retaining s (fun h => h.IsFiled s ∧ Hub.Has s sync h) (restart s)
      fun r h => r = .ok () → ∃ settings, Hub.Has s (renewed settings sync) h := by
  have hretains : ∀ h h', Hub.Retains s h h' → h.IsFiled s ∧ Hub.Has s sync h →
      h'.IsFiled s ∧ Hub.Has s sync h' := fun _ _ hretains hboth =>
    ⟨hretains.filed hboth.1, hretains.documents sync hboth.2⟩
  refine .bind (Pact.reaches_modifyGet (Q := fun _ h => h.IsFiled s ∧ Hub.Has s sync h)
    fun h => hretains h (Hub.enterLock (.lifecycle s) h).2
      (Hub.Bypasses.retains ⟨rfl, rfl, rfl⟩)) fun ticket => .ensuring ?_ ?_
  · refine .bind (reaches_of_preserves preserves_waitUntil hretains) fun _ =>
      Pact.reaches_get fun h hboth => ?_
    dsimp only
    split
    · exact .pure _ fun _ _ => nofun
    have hnodup : (((h.session s).documents.map fun (_, k) => h.synchronizer k).map
        (·.uri)).Nodup := by
      rw [hboth.1.uris]
      exact hboth.1.nodup
    refine .bind (counting_stopInTurn.retaining.weaken (fun _ heq => ?_) fun _ _ => id)
      fun _ => .bind counting_startInTurn.retaining fun r => ?_
    · rw [heq]
      exact hboth.2.known
    cases r with
    | error e => exact .pure _ fun _ _ => nofun
    | ok =>
      refine Pact.reaches_get fun h' hknows => .bind ((retaining_reopen hnodup
        hboth.2.mem_synchronizers).weaken (fun _ heq => heq ▸ hknows) fun _ _ => id) fun _ => ?_
      exact .pure _ fun _ hsync _ => ⟨_, hsync⟩
  · rintro r h hend hr
    obtain ⟨settings, hsync⟩ := hend hr
    exact ⟨settings, (Hub.Bypasses.retains ⟨rfl, rfl, rfl⟩ : Hub.Retains s h _).documents _ hsync⟩

end Session

end Reaching

namespace Hub

variable {s : Nat} {h : Hub} {sync : Synchronizer}

/-- A restart that ends well has connected all documents again that the session had, in their
first version and with their last text, whatever else the others do meanwhile. -/
theorem renewed_of_restart (hfiled : h.IsFiled s) (hsync : Has s sync h)
    {moves : List (Move Hub)} (hmoves : ∀ move ∈ moves, move.Follows (Retains s))
    (hresult : ((Stage.ofRoutine (Session.restart s) h).run moves).result? = some (.ok ())) :
    ∃ settings, Has s (.start sync.uri sync.languageId settings sync.lastText)
      ((Stage.ofRoutine (Session.restart s) h).run moves).state :=
  Stage.reached_of_run (Retains.refl s) .trans Session.retaining_restart ⟨hfiled, hsync⟩ hmoves
    hresult rfl

/-- A restart brings back the document of a session whose server was lost. -/
theorem renewed_of_restart_lost :
    let sync : Synchronizer := ⟨"file:///d", "x", ⟨.incremental, none⟩, 3, [], "t"⟩
    let h : Hub := { Hub.new .empty [] ⟨⟨1000⟩, ⟨1000⟩, ⟨0⟩, .notification⟩ with
      sessions := [{ Session.new "a" 0 .application [] .factory with
        state := .failed, documents := [("file:///d", 0)] }]
      synchronizers := [sync]
      launches := [("a", [.opened none none])] }
    let answer : Response :=
      ⟨"2.0", some (.number 1), some (.mkObj [("capabilities", .mkObj [])]), none⟩
    let moves : List (Move Hub) := List.replicate 7 .goOn ++
      .others (onClient 0 (·.deliver (.number 1) answer)) :: List.replicate 5 .goOn
    let st := (Stage.ofRoutine (Session.restart 0) h).run moves
    h.IsFiled 0 ∧ Has 0 sync h ∧ (∀ move ∈ moves, move.Follows (Retains 0)) ∧
      st.result? = some (.ok ()) ∧
      ∃ settings, Has 0 (.start "file:///d" "x" settings "t") st.state := by
  intro sync h answer moves st
  have hfiled : h.IsFiled 0 := by
    refine ⟨List.nodup_singleton _, fun uri k hmem => ?_⟩
    obtain ⟨rfl, rfl⟩ := Prod.mk.inj (List.mem_singleton.mp hmem)
    exact ⟨sync, rfl, rfl⟩
  have hsync : Has 0 sync h := ⟨0, rfl, rfl⟩
  have hmoves : ∀ move ∈ moves, move.Follows (Retains 0) := by
    simp only [moves, List.replicate, List.cons_append, List.nil_append, List.forall_mem_cons]
    exact ⟨trivial, trivial, trivial, trivial, trivial, trivial, trivial,
      fun _ => Bypasses.retains ⟨rfl, rfl, rfl⟩, trivial, trivial, trivial, trivial, trivial, nofun⟩
  have hresult : st.result? = some (.ok ()) := by decide +kernel
  exact ⟨hfiled, hsync, hmoves, hresult, renewed_of_restart hfiled hsync hmoves hresult⟩

/-- The first restart fails, and the second one does not know the document any more. -/
theorem forgotten_after_restarts :
    let h : Hub := { Hub.new .empty [] ⟨⟨1000⟩, ⟨1000⟩, ⟨0⟩, .notification⟩ with
      sessions := [.new "a" 0 .application [] .factory]
      launches := [("a", [.opened none none, .refused "busy", .opened none none])] }
    let answer (id : Nat) : Response :=
      ⟨"2.0", some (.number id), some (.mkObj [("capabilities", .mkObj [])]), none⟩
    let delivered (c id : Nat) : Lifecycle.Action :=
      .others (onClient c (·.deliver (.number id) (answer id)))
    let opening : List Lifecycle.Action :=
      .call 0 (.connect 0 ⟨"file:///d", "/d", ⟨"x", []⟩⟩ "t") :: List.replicate 8 (.goOn 0) ++
        [.goOn 1, delivered 0 1] ++ List.replicate 4 (.goOn 1) ++ [.goOn 2]
    let actions : List Lifecycle.Action := opening ++ .call 1 (.restartSession 0) ::
      List.replicate 5 (.goOn 2) ++ delivered 0 2 :: List.replicate 5 (.goOn 2) ++
        .call 2 (.restartSession 0) :: List.replicate 6 (.goOn 2) ++ [.goOn 3, .goOn 3, .goOn 2,
          delivered 1 1, .goOn 2, .goOn 3, .goOn 3]
    let before := Lifecycle.run (.ofState h) opening
    let after := Lifecycle.run (.ofState h) actions
    (before.state.session 0).isConnected "file:///d" = true ∧
      after.state.outcomes.map (·.1) = [0, 1, 2] ∧ (after.state.session 0).state = .started ∧
      (after.state.session 0).documents = [] := by
  decide +kernel

end Hub

end LanguageHub
