import LanguageHub.Proofs.Lifecycle.Running

/-!
# Counts of a session

A session counts its starts and stops, and the documents that came and went. Neither count ever
goes back, whatever runs at the session, so whoever remembers a count can tell that something
happened in between.
-/

namespace LanguageHub

open Routine

namespace Hub

/-- The session is still there, and its counts go on. -/
structure Counts (s : Nat) (h h' : Hub) : Prop where
  known : s < h.sessions.length → s < h'.sessions.length
  epoch : (h.session s).epoch ≤ (h'.session s).epoch
  attachments : (h.session s).attachments ≤ (h'.session s).attachments

variable {s : Nat} {h h' h'' : Hub}

theorem Counts.of_eq (hsame : h'.sessions[s]? = h.sessions[s]?) : Counts s h h' where
  known hknown := by
    rw [List.getElem?_eq_getElem hknown] at hsame
    exact (List.getElem?_eq_some_iff.mp hsame).1
  epoch := Nat.le_of_eq (congrArg Session.epoch (session_eq hsame).symm)
  attachments := Nat.le_of_eq (congrArg Session.attachments (session_eq hsame).symm)

theorem Counts.refl (s : Nat) (h : Hub) : Counts s h h := .of_eq rfl

theorem Counts.trans (first : Counts s h h') (second : Counts s h' h'') : Counts s h h'' :=
  ⟨fun hknown => second.known (first.known hknown), Nat.le_trans first.epoch second.epoch,
    Nat.le_trans first.attachments second.attachments⟩

theorem Spares.counts (hspares : Spares s h h') : Counts s h h' :=
  .of_eq hspares.session

theorem counts_onSession {f : Session → Session} (hepoch : ∀ x, x.epoch ≤ (f x).epoch)
    (hattachments : ∀ x, x.attachments ≤ (f x).attachments) : Counts s h (h.onSession s f) := by
  have hsession : (h.onSession s f).session s =
      if s = s ∧ s < h.sessions.length then f (h.session s) else h.session s := getD_modify ..
  refine ⟨fun hknown => by rwa [onSession, List.length_modify], ?_, ?_⟩ <;> rw [hsession]
  · split
    · exact hepoch _
    · exact Nat.le_refl _
  · split
    · exact hattachments _
    · exact Nat.le_refl _

theorem counts_onSession_same {f : Session → Session}
    (hf : ∀ x, (f x).epoch = x.epoch ∧ (f x).attachments = x.attachments) :
    Counts s h (h.onSession s f) :=
  counts_onSession (fun x => Nat.le_of_eq (hf x).1.symm) fun x => Nat.le_of_eq (hf x).2.symm

theorem counts_enter (state : ServerState) : Counts s h (Session.enter s state h) := by
  unfold Session.enter
  dsimp only
  split
  · exact .refl s h
  · have hcounts : Counts s h (h.onSession s fun session => { session with state }) :=
      counts_onSession_same fun _ => ⟨rfl, rfl⟩
    exact hcounts.trans (.of_eq rfl)

theorem counts_fail (e : HubError) : Counts s h (Session.fail s e h) := by
  have hnoted : Counts s h
      (h.onSession s fun session => { session with lastError := some e.message }) :=
    counts_onSession_same fun _ => ⟨rfl, rfl⟩
  have hcounts := hnoted.trans (counts_enter .failed)
  unfold Session.fail
  dsimp only
  split
  · exact hcounts.trans (.of_eq rfl)
  · exact hcounts

theorem counts_dropClient : Counts s h (Session.dropClient s h) := by
  unfold Session.dropClient
  split
  · exact .refl s h
  · have hcounts : Counts s h (h.onSession s fun session => { session with running := none }) :=
      counts_onSession_same fun _ => ⟨rfl, rfl⟩
    exact hcounts.trans (.of_eq rfl)

end Hub

/-! ## Programs -/

/-- The counts of the session go on with all that the program does, and it starts only what runs
beside the calls there. -/
abbrev Counting (s : Nat) (p : Program α) : Prop := p.Conducts (Hub.Counts s) (Job.IsAt s)

section Rules

variable {s : Nat} {α β : Type} {p : Program α}

theorem Sparing.counting (hp : Sparing s p) : Counting s p := by
  induction p with
  | done a => trivial
  | act update next ih => exact ⟨fun h => (hp.1 h).counts, fun h => ih h (hp.2 h)⟩
  | spawn job next ih => exact ⟨hp.1, ih hp.2⟩
  | await ready abandon next ih => exact ⟨fun h => (hp.1 h).counts, ih hp.2⟩

theorem counting_pure (a : α) : Counting s (pure a : Program α) := trivial

theorem counting_get : Counting s (get : Program Hub) := ⟨.refl s, fun _ => trivial⟩

theorem counting_modify {f : Hub → Hub} (hf : ∀ h, Hub.Counts s h (f h)) :
    Counting s (modify f : Program Unit) := ⟨hf, fun _ => trivial⟩

theorem counting_modifyGet {f : Hub → α × Hub} (hf : ∀ h, Hub.Counts s h (f h).2) :
    Counting s (modifyGet f : Program α) := ⟨hf, fun _ => trivial⟩

theorem Counting.inLine {n : LockName} {p : Nat → Program α}
    (hp : ∀ ticket, Counting s (p ticket)) : Counting s (Program.inLine n p) :=
  .bind (counting_modifyGet fun _ => .of_eq rfl) fun ticket =>
    (hp ticket).ensuring (fun _ => .of_eq rfl) Hub.Counts.trans

theorem Counting.withLock (n : LockName) (hp : Counting s p) :
    Counting s (Program.withLock n p) :=
  Counting.inLine fun _ => .bind (sparing_waitUntil _).counting fun _ => hp

end Rules

namespace Session

variable {s : Nat}

theorem counting_onSession {f : Session → Session} (hepoch : ∀ x, x.epoch ≤ (f x).epoch)
    (hattachments : ∀ x, x.attachments ≤ (f x).attachments) :
    Counting s (modify (Hub.onSession s f) : Program Unit) :=
  counting_modify fun _ => Hub.counts_onSession hepoch hattachments

theorem counting_onSession_same {f : Session → Session}
    (hf : ∀ x, (f x).epoch = x.epoch ∧ (f x).attachments = x.attachments) :
    Counting s (modify (Hub.onSession s f) : Program Unit) :=
  counting_modify fun _ => Hub.counts_onSession_same hf

theorem counting_enter (state : ServerState) :
    Counting s (modify (enter s state) : Program Unit) :=
  counting_modify fun _ => Hub.counts_enter state

theorem counting_tearDown : Counting s (tearDown s) := by
  refine .bind (counting_modify fun _ => Hub.counts_dropClient) fun _ => .bind ?_ fun _ =>
    counting_onSession_same fun _ => ⟨rfl, rfl⟩
  refine Counting.withLock _ (.bind (counting_modifyGet fun _ =>
    Hub.counts_onSession_same fun _ => ⟨rfl, rfl⟩) fun link => ?_)
  cases link with
  | none => exact counting_pure _
  | some link => exact (sparing_endServer link).counting

/-- What a stop does once it has counted. -/
theorem counting_stopping : Counting s (do
    modify (enter s .stopping)
    sayGoodbye s
    tearDown s
    modify (Hub.onSession s fun session => { session with documents := [], startedAt := none })
    modify (enter s .stopped)) :=
  .bind (counting_enter _) fun _ => .bind sparing_sayGoodbye.counting fun _ =>
    .bind counting_tearDown fun _ =>
      .bind (counting_onSession_same fun _ => ⟨rfl, rfl⟩) fun _ =>
        counting_enter _

theorem counting_stopInTurn : Counting s (stopInTurn s) :=
  .bind counting_get fun h => by
    dsimp only
    split
    · exact counting_pure _
    · exact .bind (counting_onSession (fun _ => Nat.le_succ _) fun _ => Nat.le_refl _)
        fun _ => counting_stopping

theorem counting_failWith {α : Type} (e : HubError) :
    Counting s (failWith s e : Program (Except HubError α)) :=
  .bind (counting_modify fun _ => Hub.counts_fail e) fun _ => counting_pure _

theorem counting_run (c epoch : Nat) (capabilities : ServerCapabilities) :
    Counting s (run s c epoch capabilities) :=
  .bind (Client.sparing_onClient _).counting fun _ =>
    .bind (counting_onSession_same fun _ => ⟨rfl, rfl⟩) fun _ =>
      .bind (counting_enter _) fun _ => .bind sparing_pushSettings.counting fun _ =>
        Sparing.counting (p := Routine.start (.watchConnection s c epoch)) (sparing_start rfl)

theorem counting_introduce (c epoch : Nat) (folders : List WorkspaceFolder) :
    Counting s (introduce s c epoch folders) := by
  refine .bind (counting_enter _) fun _ => .bind (sparing_shakeHands c folders).counting
    fun r => ?_
  cases r with
  | error e => exact .bind counting_tearDown fun _ => counting_failWith e
  | ok capabilities =>
    refine .bind (Client.sparing_notify _ _).counting fun r => ?_
    cases r with
    | error e => exact .bind counting_tearDown fun _ => counting_failWith e
    | ok => exact .bind (counting_run c epoch capabilities) fun _ => counting_pure _

theorem counting_startInTurn : Counting s (startInTurn s) := by
  refine .bind (counting_modify fun h => Hub.counts_onSession (fun _ => Nat.le_succ _)
    fun _ => Nat.le_refl _) fun _ => .bind counting_get fun h => .bind (counting_enter _) fun _ =>
      .bind sparing_openConnection.counting fun r => ?_
  cases r with
  | error e => exact counting_failWith e
  | ok link =>
    refine .bind (counting_modify fun h =>
      Hub.counts_onSession_same fun _ => ⟨rfl, rfl⟩) fun _ =>
      .bind (Counting.withLock _ (counting_onSession_same fun _ => ⟨rfl, rfl⟩)) fun _ =>
        .bind counting_get fun h => .bind (sparing_newClient link _).counting fun c => ?_
    exact (counting_introduce c _ _).ensuring (fun _ => .of_eq rfl) Hub.Counts.trans

theorem counting_start : Counting s (start s) :=
  Counting.withLock _ (.bind counting_get fun h => by
    dsimp only
    split
    · exact counting_pure _
    · exact counting_pure _
    · exact counting_startInTurn)

theorem counting_stop : Counting s (stop s) := Counting.withLock _ counting_stopInTurn

/-! ## Documents -/

theorem counting_openDocument (sync : Synchronizer) : Counting s (openDocument s sync) :=
  .bind (counting_modifyGet fun h => by
    have hmade : Hub.Counts s h { h with synchronizers := h.synchronizers ++ [sync] } :=
      .of_eq rfl
    exact hmade.trans (Hub.counts_onSession_same fun _ => ⟨rfl, rfl⟩))
    fun k => (Lifecycle.sparing_opening k).counting

theorem counting_reopen (settings : SyncSettings) :
    ∀ documents, Counting s (reopen s settings documents)
  | [] => counting_pure _
  | _ :: rest => .bind (counting_openDocument _) fun _ => counting_reopen settings rest

theorem counting_restart : Counting s (restart s) :=
  Counting.withLock _ (.bind counting_get fun h => by
    dsimp only
    split
    · exact counting_pure _
    refine .bind counting_stopInTurn fun _ => .bind counting_startInTurn fun r => ?_
    cases r with
    | error e => exact counting_pure _
    | ok =>
      exact .bind counting_get fun h => .bind (counting_reopen _ _) fun _ => counting_pure _)

theorem counting_connect (document : DocumentRef) (text : String) :
    Counting s (connect s document text) := by
  refine .bind counting_start fun r => ?_
  cases r with
  | error e => exact counting_pure _
  | ok =>
    refine .bind (counting_onSession (fun _ => Nat.le_refl _) fun _ => Nat.le_succ _) fun _ =>
      .bind counting_get fun h => ?_
    dsimp only
    split
    · exact counting_pure _
    · exact counting_pure _
    · exact .bind (counting_openDocument _) fun _ => counting_pure _

theorem counting_disconnect (uri : String) : Counting s (disconnect s uri) := by
  rw [disconnect_eq]
  refine .bind counting_get fun h => ?_
  split
  · exact counting_pure _
  · exact .bind (counting_onSession (fun _ => Nat.le_refl _) fun _ => Nat.le_succ _)
      fun _ => (sparing_parting uri _).counting

theorem counting_watchConnection (c epoch : Nat) : Counting s (watchConnection s c epoch) :=
  .bind (sparing_waitUntil _).counting fun _ => .bind counting_get fun h => by
    dsimp only
    split
    · exact .bind (counting_modify fun _ => Hub.counts_fail _) fun _ => counting_tearDown
    · exact counting_pure _

theorem counting_stopWhenIdle (attachments : Nat) : Counting s (stopWhenIdle s attachments) :=
  .bind counting_get fun h => .bind (sparing_sleep _).counting fun _ =>
    .bind counting_get fun h => by
      dsimp only
      split
      · exact counting_stop
      · exact counting_pure _

end Session

/-! ## Calls and jobs -/

namespace Lifecycle

open Session

variable {s : Nat} {m : Machine Job Hub}

theorem counting_call {c : Call} (hc : c.IsAt s) : Counting s c.program := by
  have hthen : ∀ {α : Type} {p : Program α} {f : α → Outcome}, Counting s p →
      Counting s (p >>= fun a => pure (f a)) := fun hp => .bind hp fun _ => counting_pure _
  cases c with
  | startSession r =>
    obtain rfl : r = s := hc
    exact hthen counting_start
  | stopSession r =>
    obtain rfl : r = s := hc
    exact hthen counting_stop
  | restartSession r =>
    obtain rfl : r = s := hc
    exact hthen counting_restart
  | pushSettings r =>
    obtain rfl : r = s := hc
    exact hthen sparing_pushSettings.counting
  | connect r document text =>
    obtain rfl : r = s := hc
    exact hthen (counting_connect document text)
  | disconnect r uri =>
    obtain rfl : r = s := hc
    exact hthen (counting_disconnect uri)
  | commit r uri =>
    obtain rfl : r = s := hc
    exact hthen (sparing_commit uri).counting
  | save r uri text =>
    obtain rfl : r = s := hc
    exact hthen (sparing_save uri text).counting
  | _ => exact hc.elim

theorem conducted_call (slot : Nat) {c : Call} (hc : c.IsAt s) :
    (Job.program (.call slot c)).IsConducted (Hub.Counts s) (Job.IsAt s) where
  conducts := .bind (counting_call hc) fun _ =>
    .bind (counting_modify fun _ => .of_eq rfl) fun _ => trivial
  ends := endsWith_bind fun _ => endsWith_bind fun _ => nofun

theorem conducted_job {job : Job} (hjob : job.IsAt s) :
    job.program.IsConducted (Hub.Counts s) (Job.IsAt s) := by
  cases job with
  | read c =>
    refine ⟨.bind Client.sparing_listen.counting fun _ => trivial, endsWith_bind fun goesOn => ?_⟩
    intro next hnext
    cases goesOn with
    | true => exact Option.some.inj hnext ▸ trivial
    | false => cases hnext
  | watchConnection r c epoch =>
    obtain rfl : r = s := hjob
    exact ⟨.bind (counting_watchConnection c epoch) fun _ => trivial,
      endsWith_bind fun _ => nofun⟩
  | stopWhenIdle r attachments =>
    obtain rfl : r = s := hjob
    exact ⟨.bind (counting_stopWhenIdle attachments) fun _ => trivial,
      endsWith_bind fun _ => nofun⟩
  | watchRegistry cursor => exact hjob.elim
  | call slot c => exact hjob.elim

/-! ## Every run -/

theorem conducts_of_isAt {action : Action} (haction : action.IsAt s) :
    action.Conducts (Hub.Counts s) (Job.IsAt s) := by
  cases action with
  | goOn place => trivial
  | call slot c => exact conducted_call slot haction
  | others change => exact fun h => (haction h).counts

theorem conducted_run (hm : m.IsConducted (Hub.Counts s) (Job.IsAt s)) {actions : List Action}
    (hactions : ∀ action ∈ actions, action.IsAt s) :
    (run m actions).IsConducted (Hub.Counts s) (Job.IsAt s) :=
  isConducted_run (fun _ => conducted_job) hm fun action hmem =>
    conducts_of_isAt (hactions action hmem)

/-- No count ever goes back. -/
theorem counts_run (hm : m.IsConducted (Hub.Counts s) (Job.IsAt s)) {actions : List Action}
    (hactions : ∀ action ∈ actions, action.IsAt s) :
    Hub.Counts s m.state (run m actions).state :=
  moves_run (fun _ => conducted_job) (.refl s) .trans hm fun action hmem =>
    conducts_of_isAt (hactions action hmem)

/-- A count that is as it was before has not changed in between. -/
theorem attachments_of_prefix (hm : m.IsConducted (Hub.Counts s) (Job.IsAt s))
    {actions sooner : List Action} (hactions : ∀ action ∈ actions, action.IsAt s)
    (hsame : ((run m actions).state.session s).attachments = (m.state.session s).attachments)
    (hsooner : sooner <+: actions) :
    ((run m sooner).state.session s).attachments = (m.state.session s).attachments := by
  obtain ⟨later, rfl⟩ := hsooner
  rw [List.forall_mem_append] at hactions
  have hfirst := (counts_run hm hactions.1).attachments
  have hsecond := (counts_run (conducted_run hm hactions.1) hactions.2).attachments
  rw [← run_append, hsame] at hsecond
  exact Nat.le_antisymm hsecond hfirst

end Lifecycle

end LanguageHub
