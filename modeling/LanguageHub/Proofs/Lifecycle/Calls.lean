import LanguageHub.Hub.Jobs
import LanguageHub.Proofs.Lifecycle.Starting

/-!
# Calls and jobs keep sessions in order

Every call at a session and everything that runs beside the calls keeps the pact there, from
wherever it goes on.
-/

namespace LanguageHub

/-- The call is one at this session. -/
def Call.IsAt (s : Nat) : Call → Prop
  | startSession r | stopSession r | restartSession r | pushSettings r => r = s
  | connect r _ _ | disconnect r _ | commit r _ | save r _ _ => r = s
  | _ => False

namespace Lifecycle

open Routine Pact Session

variable {s me t : Nat} {α : Type}

/-! ## In turn -/

theorem reaches_start : Reaches s me (fun _ => True) (start s)
    fun r w => r = .ok () → (w.session s).state.HasBegun := by
  refine reaches_withTurn
    (G := fun (r : Except HubError Unit) x => r = .ok () → x.state.HasBegun) fun t => ?_
  refine reaches_get inTurn_move fun h => ?_
  dsimp only
  split
  · rename_i hstarted
    exact reaches_pure _ fun w hw => ⟨hw.1.holds, hw.1.fact, fun _ => .inl (by
      rwa [World.session, hw.2])⟩
  · exact reaches_pure _ fun w hw => ⟨hw.1.holds, hw.1.fact, by simp⟩
  · rename_i hstarted hfailed
    refine reaches_startInTurn.weaken (fun w hw => ⟨hw.1.holds, ?_⟩)
      fun _ w hw => ⟨hw.holds, hw.fact.isAtRest, fun _ => hw.fact⟩
    refine hw.1.fact.isIdle_or.resolve_right fun hbegun => ?_
    rw [World.session, hw.2] at hbegun
    exact hbegun.elim hstarted hfailed

theorem reaches_stop : Reaches s me (fun _ => True) (stop s) fun _ _ => True :=
  reaches_withTurn (G := fun _ _ => True) fun _ =>
    reaches_stopInTurn.weaken (fun _ hw => hw)
      fun _ _ hw => ⟨hw.holds, hw.fact.isAtRest, trivial⟩

/-! ## Documents -/

theorem session_addDocument (sync : Synchronizer) {h : Hub} (hs : s < h.sessions.length) :
    (addDocument s sync h).2.session s =
      (h.session s).attach sync.uri h.synchronizers.length :=
  Hub.session_onSession (h := { h with synchronizers := h.synchronizers ++ [sync] }) s _ hs

/-- A document may be attached to a session that was started. -/
theorem steps_addDocument {sync : Synchronizer} {h : Hub} (hs : s < h.sessions.length)
    (horder : (h.session s).InOrder) (hbegun : (h.session s).state.HasBegun) :
    Steps s (fun x => x.state.HasBegun) h (addDocument s sync h).2 := by
  have hsession := session_addDocument sync hs
  refine ⟨rfl, ?_, ?_, Hub.lawful_of_eq ?_ rfl, ?_⟩
  · simpa [addDocument, Hub.onSession] using hs
  · rw [hsession]
    refine ⟨horder.started, horder.failed, fun hstopped => ?_, fun _ => ?_⟩
    · rcases hbegun with hstate | hstate <;> simp [attach, hstate] at hstopped
    · exact hbegun.imp id .inr
  · rw [hsession]
    rfl
  · rw [hsession]
    exact hbegun

theorem sparing_opening (k : Nat) :
    Sparing s (Program.withFreeLock (.send k) (sendOpen s k) >>= fun _ => pure k) :=
  .bind (.inLine (by simp) fun _ => sparing_sendOpen k) fun _ => sparing_pure _

theorem reaches_reopen (settings : SyncSettings) :
    ∀ documents, Reaches s me (InTurn s me t fun x => x.state.HasBegun)
      (reopen s settings documents) fun _ => InTurn s me t fun x => x.state.HasBegun
  | [] => reaches_pure _ fun _ hw => hw
  | sync :: rest => by
    refine .bind (.bind (Q := fun _ => InTurn s me t fun x => x.state.HasBegun)
      (reaches_stepGet fun h hs horder hbegun => steps_addDocument hs horder hbegun) fun k =>
        reaches_inTurn steady_hasBegun (sparing_opening k)) fun _ => ?_
    exact reaches_reopen settings rest

theorem reaches_restart : Reaches s me (fun _ => True) (restart s) fun _ _ => True := by
  refine reaches_withTurn (G := fun _ _ => True) fun t => ?_
  refine reaches_get inTurn_move fun h => ?_
  dsimp only
  split
  · exact reaches_pure _ fun w hw => ⟨hw.1.holds, hw.1.fact, trivial⟩
  refine .bind (reaches_stopInTurn.weaken (fun _ hw => hw.1) fun _ _ hw => hw) fun _ => ?_
  refine .bind reaches_startInTurn fun r => ?_
  cases r with
  | error e => exact reaches_pure _ fun w hw => ⟨hw.holds, hw.fact.isAtRest, trivial⟩
  | ok =>
    refine .bind (reaches_inTurn steady_hasBegun sparing_get) fun h => ?_
    refine .bind (reaches_reopen _ _) fun _ => ?_
    exact reaches_pure _ fun w hw => ⟨hw.holds, hw.fact.isAtRest, trivial⟩

theorem reaches_connect (document : DocumentRef) (text : String) :
    Reaches s me (fun _ => True) (connect s document text) fun _ _ => True := by
  refine .bind reaches_start fun r => ?_
  cases r with
  | error e => exact reaches_pure _ fun _ _ => trivial
  | ok =>
    refine .bind (Q := fun _ w => (w.session s).state.HasBegun)
      (reaches_modify fun w hw hbegun => ⟨?_, ?_⟩) fun _ => ?_
    · exact acts_onSession hw (.of_eq (.inl rfl) (.inl rfl) rfl rfl) rfl
        ⟨hw.order.started, hw.order.failed, hw.order.stopped, hw.order.documents⟩
    · change ((w.hub.onSession s (·.touched)).session s).state.HasBegun
      rw [Hub.session_onSession s _ hw.known]
      exact hbegun rfl
    refine reaches_get (fun _ hw => hw) fun h => ?_
    dsimp only
    split
    · exact reaches_pure _ fun _ _ => trivial
    · exact reaches_pure _ fun _ _ => trivial
    · refine .bind (.bind (Q := fun _ _ => True)
        (reaches_modifyGet fun w hw hbegun => ⟨?_, trivial⟩)
        fun k => reaches_of_sparing lasting_true (sparing_opening k)) fun _ =>
          reaches_pure _ fun _ _ => trivial
      refine (steps_addDocument hw.known hw.order hbegun.1).meddles ?_
      rw [session_addDocument _ hw.known]
      exact .of_eq (.inl rfl) (.inl rfl) rfl rfl

theorem inOrder_detach {x : Session} (h : x.InOrder) (uri : String) :
    ((x.detach uri).touched).InOrder where
  started := h.started
  failed := h.failed
  stopped hstopped := by
    obtain ⟨hrunning, hlink, hdocuments, hstarted⟩ := h.stopped hstopped
    exact ⟨hrunning, hlink, by simp [detach, touched, hdocuments], hstarted⟩
  documents hsome := h.documents fun hnone => hsome (by simp [detach, touched, hnone])

theorem reaches_disconnect (uri : String) :
    Reaches s me (fun _ => True) (disconnect s uri) fun _ _ => True := by
  rw [disconnect_eq]
  refine reaches_get (fun _ hw => hw) fun h => ?_
  split
  · exact reaches_pure _ fun _ _ => trivial
  · refine .bind (Q := fun _ _ => True) (reaches_modify fun w hw _ => ⟨acts_onSession hw
      (.of_eq (.inl rfl) (.inl rfl) rfl rfl) rfl (inOrder_detach hw.order uri), trivial⟩)
      fun _ => ?_
    exact reaches_of_sparing lasting_true (sparing_parting uri _)

/-! ## Beside the calls -/

/-- Only a session that is started fails when its connection is lost. -/
theorem reaches_watchConnection (c epoch : Nat) :
    Reaches s me (fun _ => True) (watchConnection s c epoch) fun _ _ => True := by
  refine .bind (reaches_of_sparing lasting_true (sparing_waitUntil _)) fun _ => ?_
  refine reaches_get (fun _ hw => hw) fun h => ?_
  dsimp only
  split
  · rename_i hnow
    have hleads : ∀ w : World, w.hub = h → (w.session s).state.leadsTo .failed = true :=
      fun w hw => by
        rw [World.session, hw, hnow.2]
        rfl
    refine .bind (Q := fun _ w => (w.session s).state ≠ .started)
      (reaches_modify fun w hw hstate => ?_) fun _ => reaches_tearDown_outside
    have hsteps : Steps s (fun x => x.state = .failed) w.hub (fail s .connectionClosed w.hub) :=
      steps_fail hw.known (hleads w hstate.2) fun _ hfailed => hfailed
    refine ⟨hsteps.meddles ⟨?_, ?_, .inr ⟨?_, hsteps.fact⟩⟩, ?_⟩
    · rw [session_fail hw.known]
      exact .inl rfl
    · rw [session_fail hw.known]
      exact .inl rfl
    · rw [World.session, hstate.2]
      exact hnow.2
    · have hfailed : ((w.move s me (fail s .connectionClosed w.hub)).session s).state = .failed :=
        hsteps.fact
      simp [hfailed]
  · exact reaches_pure _ fun _ _ => trivial

theorem reaches_stopWhenIdle (attachments : Nat) :
    Reaches s me (fun _ => True) (stopWhenIdle s attachments) fun _ _ => True := by
  refine .bind (reaches_of_sparing lasting_true sparing_get) fun h => ?_
  refine .bind (reaches_of_sparing lasting_true (sparing_sleep _)) fun _ => ?_
  refine .bind (reaches_of_sparing lasting_true sparing_get) fun h => ?_
  dsimp only
  split
  · exact reaches_stop
  · exact reaches_pure _ fun _ _ => trivial

/-! ## All of them -/

theorem reaches_call {c : Call} (hc : c.IsAt s) :
    Reaches s me (fun _ => True) c.program fun _ _ => True := by
  have hthen : ∀ {α : Type} {p : Program α} {f : α → Outcome} {Q : α → World → Prop},
      Reaches s me (fun _ => True) p Q →
      Reaches s me (fun _ => True) (p >>= fun b => pure (f b)) fun _ _ => True := fun hp =>
    .bind hp fun _ => reaches_pure _ fun _ _ => trivial
  cases c with
  | startSession r =>
    obtain rfl : r = s := hc
    exact hthen reaches_start
  | stopSession r =>
    obtain rfl : r = s := hc
    exact hthen reaches_stop
  | restartSession r =>
    obtain rfl : r = s := hc
    exact hthen reaches_restart
  | pushSettings r =>
    obtain rfl : r = s := hc
    exact hthen (reaches_of_sparing lasting_true sparing_pushSettings)
  | connect r document text =>
    obtain rfl : r = s := hc
    exact hthen (reaches_connect document text)
  | disconnect r uri =>
    obtain rfl : r = s := hc
    exact hthen (reaches_disconnect uri)
  | commit r uri =>
    obtain rfl : r = s := hc
    exact hthen (reaches_of_sparing lasting_true (sparing_commit uri))
  | save r uri text =>
    obtain rfl : r = s := hc
    exact hthen (reaches_of_sparing lasting_true (sparing_save uri text))
  | _ => exact hc.elim

/-- Whatever a job goes on as is a job at the session, too. -/
theorem reaches_job {job : Job} (hjob : job.IsAt s) :
    Reaches s me (fun _ => True) job.program fun r _ => ∀ next, r = some next → next.IsAt s := by
  cases job with
  | read c =>
    refine .bind (reaches_of_sparing lasting_true Client.sparing_listen) fun goesOn => ?_
    cases goesOn with
    | true => exact reaches_pure _ fun _ _ next hnext => Option.some.inj hnext ▸ trivial
    | false => exact reaches_pure _ fun _ _ next hnext => (nomatch hnext)
  | watchConnection r c epoch =>
    obtain rfl : r = s := hjob
    exact .bind (reaches_watchConnection c epoch) fun _ =>
      reaches_pure _ fun _ _ next hnext => (nomatch hnext)
  | stopWhenIdle r attachments =>
    obtain rfl : r = s := hjob
    exact .bind (reaches_stopWhenIdle attachments) fun _ =>
      reaches_pure _ fun _ _ next hnext => (nomatch hnext)
  | watchRegistry cursor => exact hjob.elim
  | call slot c => exact hjob.elim

/-- A call in the background ends with its outcome. -/
theorem reaches_background (slot : Nat) {c : Call} (hc : c.IsAt s) :
    Reaches s me (fun _ => True) (Job.call slot c).program fun r _ => r = none :=
  .bind (reaches_call hc) fun _ => .bind (reaches_of_sparing lasting_true
    (sparing_modify fun _ => Hub.spares_of_eq rfl rfl rfl)) fun _ => reaches_pure _ fun _ _ => rfl

end Lifecycle

end LanguageHub
