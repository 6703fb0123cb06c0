import Mathlib.Data.List.Infix
import LanguageHub.Proofs.Lifecycle.Counting
import LanguageHub.Proofs.Routine.Lingering

/-!
# Idle sessions

A session that has lost its last document is watched until it is used again or has ended: by the
call that disconnected the document, and then by the timer which that call starts. As long as the
session stays idle, and its server is not started anew, the timer is there or stops the session.
-/

namespace LanguageHub

open Routine

/-- Started and without documents, after so many came and went. -/
def Session.IsIdle (attachments : Nat) (x : Session) : Prop :=
  x.attachments = attachments ∧ x.documents = [] ∧ x.state = .started

instance (attachments : Nat) (x : Session) : Decidable (x.IsIdle attachments) :=
  inferInstanceAs (Decidable (_ ∧ _ ∧ _))

namespace Hub

variable {s : Nat} {h : Hub}

/-- The session is idle in this run of its server. -/
def IsCalm (s epoch attachments : Nat) (h : Hub) : Prop :=
  (h.session s).epoch = epoch ∧ (h.session s).IsIdle attachments

instance (epoch attachments : Nat) : Decidable (IsCalm s epoch attachments h) :=
  inferInstanceAs (Decidable (_ ∧ _))

/-- This run of the session's server is over. -/
def IsPast (s epoch : Nat) (h : Hub) : Prop := epoch < (h.session s).epoch

theorem not_isCalm_of_isPast {epoch attachments : Nat} (hpast : IsPast s epoch h) :
    ¬ IsCalm s epoch attachments h := fun hcalm =>
  Nat.lt_irrefl _ (Nat.lt_of_lt_of_eq hpast hcalm.1)

theorem Counts.isPast {epoch : Nat} {h' : Hub} (hcounts : Counts s h h')
    (hpast : IsPast s epoch h) : IsPast s epoch h' := Nat.lt_of_lt_of_le hpast hcounts.epoch

theorem known_of_started (hstarted : (h.session s).state = .started) : s < h.sessions.length := by
  by_contra hunknown
  rw [session, List.getElem?_eq_none (Nat.le_of_not_lt hunknown)] at hstarted
  cases hstarted

end Hub

theorem Sparing.preserves {s : Nat} {α : Type} {p : Program α} (hp : Sparing s p)
    (F : Session → Prop) : p.Preserves fun h => F (h.session s) := by
  have hkeeps : ∀ {h h' : Hub}, Hub.Spares s h h' → F (h.session s) → F (h'.session s) :=
    fun hspares hF => by rwa [Hub.session_eq hspares.session]
  induction p with
  | done a => trivial
  | act update next ih => exact ⟨fun h => hkeeps (hp.1 h), fun h => ih h (hp.2 h)⟩
  | spawn job next ih => exact ih hp.2
  | await ready abandon next ih => exact ⟨fun h => hkeeps (hp.1 h), ih hp.2⟩

/-! ## The timer -/

section Timer

variable {s epoch attachments : Nat} {α : Type} {good : Job → Prop}

/-- Bound to a session and a run of its server: it does not end while the session is idle. -/
abbrev Minding (s epoch attachments : Nat) (p : Program α) : Prop :=
  p.Lingers (Hub.IsCalm s epoch attachments) (Hub.IsPast s epoch)
    (· = .stopWhenIdle s attachments)

theorem Sparing.minding {β : Type} {p : Program α} {f : α → Program β} (hp : Sparing s p)
    (hf : ∀ a, Minding s epoch attachments (f a)) : Minding s epoch attachments (p >>= f) :=
  (hp.preserves fun x => x.epoch = epoch ∧ x.IsIdle attachments).lingers hf

theorem Counting.preserves {p : Program α} (hp : Counting s p) :
    p.Preserves (Hub.IsPast s epoch) :=
  Conducts.preserves hp fun _ _ hcounts hpast => hcounts.isPast hpast

theorem minding_get {next : Hub → Program α}
    (hnext : ∀ h, Hub.IsCalm s epoch attachments h → Minding s epoch attachments (next h)) :
    Minding s epoch attachments (get >>= next) := fun h hcalm => .inl ⟨hcalm, hnext h hcalm⟩

namespace Session

theorem minding_stopInTurn : Minding s epoch attachments (stopInTurn s) := by
  refine minding_get fun h hcalm => ?_
  have hrunning : ¬ ((h.session s).state = .notStarted ∨ (h.session s).state = .stopped) := by
    simp [hcalm.2.2.2]
  rw [if_neg hrunning]
  refine fun h hcalm => .inr ⟨?_, Counting.preserves counting_stopping⟩
  -- The stop counts before it does anything else.
  rw [Hub.IsPast, Hub.session_onSession s _ (Hub.known_of_started hcalm.2.2.2), ← hcalm.1]
  exact Nat.lt_succ_self _

theorem minding_stop : Minding s epoch attachments (stop s) := by
  have hcalm : (modifyGet (Hub.enterLock (.lifecycle s)) : Program Nat).Preserves
      (Hub.IsCalm s epoch attachments) := ⟨fun _ hcalm => hcalm, fun _ => trivial⟩
  refine hcalm.lingers fun ticket => Lingers.ensuring ?_ fun _ hpast => hpast
  exact (sparing_waitUntil _).minding fun _ => minding_stopInTurn

/-- What a timer does when its time is over. -/
def expire (s attachments : Nat) : Program Unit := do
  let session := (← get).session s
  if session.attachments = attachments ∧ session.documents.isEmpty ∧ session.state = .started then
    stop s

theorem minding_expire : Minding s epoch attachments (expire s attachments) := by
  refine minding_get fun h hcalm => ?_
  have hidle : (h.session s).attachments = attachments ∧ (h.session s).documents.isEmpty ∧
      (h.session s).state = .started :=
    ⟨hcalm.2.1, List.isEmpty_iff.mpr hcalm.2.2.1, hcalm.2.2.2⟩
  rw [if_pos hidle]
  exact minding_stop

theorem minding_stopWhenIdle : Minding s epoch attachments (stopWhenIdle s attachments) :=
  sparing_get.minding fun _ => (sparing_sleep _).minding fun _ => minding_expire

theorem legFrom_disconnect_of_none {uri : String} {h : Hub} {jobs : List Job}
    (hlookup : (h.session s).synchronizer? uri = none) :
    (disconnect s uri).legFrom h jobs = ⟨h, jobs, .done ()⟩ := by
  rw [disconnect_eq, legFrom_get, hlookup]
  rfl

theorem legFrom_disconnect_of_some {uri : String} {k : Nat} {h : Hub} {jobs : List Job}
    (hlookup : (h.session s).synchronizer? uri = some k) :
    (disconnect s uri).legFrom h jobs = (parting s uri k).legFrom
      (h.onSession s fun session => (session.detach uri).touched) jobs := by
  rw [disconnect_eq, legFrom_get, hlookup, legFrom_modify]

/-- Who disconnected the last document starts the timer. -/
theorem minding_parting (uri : String) (k : Nat) :
    Minding s epoch attachments (parting s uri k) := by
  refine minding_get fun h hcalm => (sparing_farewell uri k).minding fun _ => ?_
  rw [if_pos (List.isEmpty_iff.mpr hcalm.2.2.1)]
  refine minding_get fun h hcalm => .inl ?_
  rw [hcalm.2.1]

end Session

end Timer

/-! ## The watch -/

namespace Lifecycle

variable {s epoch attachments : Nat} {m : Machine Job Hub}

/-- What is left of a task that sees to the end of an idle session: of a disconnect there, or of
the timer that was started with this count of documents. -/
def Minds (s attachments : Nat) (p : Program (Option Job)) : Prop :=
  (∃ slot uri, (Job.program (.call slot (.disconnect s uri))).Leaves p) ∨
    (Job.program (.stopWhenIdle s attachments)).Leaves p

theorem Minds.leg {p : Program (Option Job)} (hp : Minds s attachments p) (h : Hub) :
    Minds s attachments (p.resumed.legFrom h []).rest := by
  rcases hp with ⟨slot, uri, hleaves⟩ | hleaves
  · exact .inl ⟨slot, uri, hleaves.leg h⟩
  · exact .inr (hleaves.leg h)

/-- The task watches over the session while it is idle. -/
abbrev Watches (s epoch attachments : Nat) (p : Program (Option Job)) : Prop :=
  Machine.Watches (Minds s attachments) (Hub.IsCalm s epoch attachments) (Hub.IsPast s epoch)
    (· = .stopWhenIdle s attachments) p

theorem watches_timer : ∀ job : Job, job = .stopWhenIdle s attachments →
    Watches s epoch attachments job.program := by
  rintro _ rfl
  exact ⟨.inr .whole, Session.minding_stopWhenIdle.bind fun _ => trivial⟩

/-- A disconnect that leaves the session idle goes on to start the timer. -/
theorem watches_of_disconnect {slot : Nat} {uri : String} {h : Hub}
    (hsome : (h.session s).documents ≠ [])
    (hcalm : Hub.IsCalm s epoch attachments
      ((Job.program (.call slot (.disconnect s uri))).legFrom h []).state) :
    (∃ job ∈ ((Job.program (.call slot (.disconnect s uri))).legFrom h []).jobs,
        job = .stopWhenIdle s attachments) ∨
      Watches s epoch attachments
        ((Job.program (.call slot (.disconnect s uri))).legFrom h []).rest := by
  -- What follows the disconnect only ends the call.
  let ending : Unit → Program (Option Job) := fun _ =>
    modify (Hub.finish slot .nothing) >>= fun _ => pure none
  have hending : ∀ a, Sparing s (ending a) := fun _ =>
    .bind (sparing_modify fun _ => Hub.spares_of_eq rfl rfl rfl) fun _ => sparing_pure _
  have hprogram : Job.program (.call slot (.disconnect s uri)) =
      (Session.disconnect s uri).bind ending := Routine.bind_assoc ..
  have hleg : (Job.program (.call slot (.disconnect s uri))).legFrom h [] =
      ((Session.disconnect s uri).legFrom h []).andThen ending := by
    rw [hprogram, legFrom_bind]
  cases hlookup : (h.session s).synchronizer? uri with
  | none =>
    rw [Session.legFrom_disconnect_of_none hlookup] at hleg
    rw [hleg] at hcalm
    exact absurd hcalm.2.2.1 hsome
  | some k =>
    rw [Session.legFrom_disconnect_of_some hlookup, ← legFrom_bind] at hleg
    have hsparing : Sparing s (Routine.bind (Session.parting s uri k) ending) :=
      (Session.sparing_parting uri k).bind hending
    -- The rest of the leg spares the session, so it was idle when the document was dropped.
    have hsame := (hsparing.preserves fun x => x =
      (h.onSession s fun session => (session.detach uri).touched).session s).kept_legFrom rfl []
    have hcalm₁ : Hub.IsCalm s epoch attachments
        (h.onSession s fun session => (session.detach uri).touched) := by
      rw [hleg, Hub.IsCalm, hsame] at hcalm
      exact hcalm
    have hlingers : Minding s epoch attachments
        (Routine.bind (Session.parting s uri k) ending) :=
      (Session.minding_parting uri k).bind fun a =>
        (hending a).preserves fun x => epoch < x.epoch
    have hkin : Minds s attachments
        ((Job.program (.call slot (.disconnect s uri))).legFrom h []).rest :=
      Minds.leg (.inl ⟨slot, uri, .whole⟩) h
    rw [hleg] at hcalm hkin ⊢
    exact (hlingers.legFrom (fun _ => Hub.not_isCalm_of_isPast) hcalm₁ [] hcalm).imp_right
      fun hrest => ⟨hkin, hrest⟩

theorem watched_step (hm : ∃ t ∈ m.tasks, Watches s epoch attachments t.rest)
    (hcalm : Hub.IsCalm s epoch attachments m.state) {action : Action}
    (hcalm' : Hub.IsCalm s epoch attachments (step m action).state) :
    ∃ t ∈ (step m action).tasks, Watches s epoch attachments t.rest := by
  cases action with
  | goOn place =>
    exact Machine.exists_watching_advance (fun _ h hp => hp.leg h)
      watches_timer (fun _ => Hub.not_isCalm_of_isPast) place hm hcalm hcalm'
  | call slot c =>
    obtain ⟨t, ht, hwatches⟩ := hm
    exact ⟨t, List.mem_append_left _ ht, hwatches⟩
  | others change => exact hm

theorem watched_run (hm : ∃ t ∈ m.tasks, Watches s epoch attachments t.rest)
    {actions : List Action} (hcalm : ∀ earlier, earlier <+: actions →
      Hub.IsCalm s epoch attachments (run m earlier).state) :
    ∃ t ∈ (run m actions).tasks, Watches s epoch attachments t.rest := by
  induction actions generalizing m with
  | nil => exact hm
  | cons action rest ih =>
    have hnow := hcalm [] List.nil_prefix
    have hnext := hcalm [action] (List.prefix_append [action] rest)
    exact ih (watched_step hm hnow hnext) fun earlier hearlier =>
      hcalm (action :: earlier) (List.cons_prefix_cons.mpr ⟨rfl, hearlier⟩)

/-- As long as a session is idle that a disconnect has left without documents, in the same run of
its server, a disconnect is under way there, or the timer that was started with the present count
is still there. -/
theorem minded_of_disconnect {place id slot : Nat} {uri : String}
    (ht : m.tasks[place]? = some ⟨id, Job.program (.call slot (.disconnect s uri))⟩)
    (hsome : (m.state.session s).documents ≠ []) {actions : List Action}
    (hcalm : ∀ earlier, earlier <+: actions →
      Hub.IsCalm s epoch attachments (run (step m (.goOn place)) earlier).state) :
    ∃ t ∈ (run (step m (.goOn place)) actions).tasks, Minds s attachments t.rest := by
  have hready : (Job.program (.call slot (.disconnect s uri))).isReady m.state = true := rfl
  have hleg : Hub.IsCalm s epoch attachments (m.advance Job.program place).state :=
    hcalm [] List.nil_prefix
  rw [Machine.state_advance ht hready] at hleg
  obtain ⟨t, ht, hwatches⟩ := watched_run (Machine.exists_watching_of_leg ht hready watches_timer
    (watches_of_disconnect hsome hleg)) hcalm
  exact ⟨t, ht, hwatches.kin⟩

/-- The timer is there once the server was told that its last document is closed. -/
theorem minded_of_disconnect_told :
    let h : Hub := { Hub.new .empty [] ⟨⟨1000⟩, ⟨1000⟩, ⟨0⟩, .notification⟩ with
      sessions := [{ Session.new "a" 0 .application [] .factory with
        state := .started, running := some ⟨0, .none⟩, documents := [("file:///d", 0)] }]
      clients := [.new "a" 0 [] ⟨1000⟩ 0]
      links := [⟨"a", "/", .fresh⟩]
      synchronizers := [.start "file:///d" "x" ⟨.incremental, none⟩ "t"] }
    let m := run (.ofState h) [.call 0 (.disconnect 0 "file:///d")]
    let actions : List Action := List.replicate 4 (.goOn 0)
    let m' := run (step m (.goOn 0)) actions
    m.tasks[0]? = some ⟨0, Job.program (.call 0 (.disconnect 0 "file:///d"))⟩ ∧
      (m.state.session 0).documents ≠ [] ∧
      (∀ earlier, earlier <+: actions →
        Hub.IsCalm 0 0 1 (run (step m (.goOn 0)) earlier).state) ∧
      (∃ t ∈ m'.tasks, Minds 0 1 t.rest) ∧ m'.tasks.map (·.id) = [1] := by
  intro h m actions m'
  have hsome : (m.state.session 0).documents ≠ [] := by decide +kernel
  have hcalm : ∀ earlier ∈ actions.inits,
      Hub.IsCalm 0 0 1 (run (step m (.goOn 0)) earlier).state := by
    decide +kernel
  have hprefixes : ∀ earlier, earlier <+: actions →
      Hub.IsCalm 0 0 1 (run (step m (.goOn 0)) earlier).state := fun earlier hearlier =>
    hcalm earlier ((List.mem_inits _ _).mpr hearlier)
  have hids : (fun m : Machine Job Hub => m.tasks.map (·.id) = [1]) m' := by decide +kernel
  exact ⟨rfl, hsome, hprefixes, minded_of_disconnect rfl hsome hprefixes, hids⟩

/-- A timer that is over while the session is restarted leaves it idle: all calls have ended, and
a day later there is still nothing to do. -/
theorem idle_after_restart :
    let h : Hub := { Hub.new .empty [] ⟨⟨1000⟩, ⟨1000⟩, ⟨0⟩, .notification⟩ with
      sessions := [.new "a" 0 .application [] .factory], launches := [("a", [.opened none none])] }
    let answer (id : Nat) : Response :=
      ⟨"2.0", some (.number id), some (.mkObj [("capabilities", .mkObj [])]), none⟩
    let delivered (c id : Nat) : Action :=
      .others (Hub.onClient c (·.deliver (.number id) (answer id)))
    let actions : List Action :=
      .call 0 (.connect 0 ⟨"file:///d", "/d", ⟨"x", []⟩⟩ "t") :: List.replicate 8 (.goOn 0) ++
        [.goOn 1, delivered 0 1] ++ List.replicate 4 (.goOn 1) ++
        [.goOn 2, .goOn 2, .call 1 (.disconnect 0 "file:///d")] ++ List.replicate 5 (.goOn 2) ++
        [.call 2 (.restartSession 0), .goOn 3, .goOn 3] ++ List.replicate 4 (.goOn 2) ++
        [delivered 0 2] ++ List.replicate 7 (.goOn 2) ++ [.goOn 3, .goOn 3, .goOn 2,
          delivered 1 1, .goOn 2, .goOn 3, .goOn 3, .goOn 0, .goOn 0]
    let m := run (.ofState h) actions
    m.state.outcomes.map (·.1) = [0, 1, 2] ∧ (m.state.session 0).IsIdle 2 ∧
      ∀ t ∈ m.tasks, t.rest.isReady { m.state with clock := .ofSeconds 86400 } = false := by
  decide +kernel

end Lifecycle

end LanguageHub
