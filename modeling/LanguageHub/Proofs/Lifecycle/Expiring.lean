import LanguageHub.Proofs.Lifecycle.Idling

/-!
# Timers that are over

A timer remembers how many documents had come and gone when it was started. It leaves its session
alone unless it finds the session idle with the same count, and then no document can have come or
gone through a call since the start of the timer.

It only looks once, before it waits for its turn: a document that is connected after that is lost.
-/

namespace LanguageHub

open Routine

namespace Session

variable {s attachments : Nat}

/-- What is left of a timer that has not looked at its session yet. -/
inductive IsPatient (s attachments : Nat) : Program (Option Job) → Prop where
  | fresh : IsPatient s attachments (Job.program (.stopWhenIdle s attachments))
  | asleep (deadline : Duration) : IsPatient s attachments
      ((waitUntil fun h : Hub => h.hasPassed deadline) >>= fun _ =>
        expire s attachments >>= fun _ => pure none)

theorem spares_startTimer (d : Duration) (h : Hub) : Hub.Spares s h (Hub.startTimer d h).2 :=
  Hub.spares_of_eq rfl rfl rfl

/-- A timer that looks at a session which is not idle has nothing to do. -/
theorem legFrom_expire {h : Hub} (hidle : ¬ (h.session s).IsIdle attachments)
    (next : Unit → Program (Option Job)) (jobs : List Job) :
    (expire s attachments >>= next).legFrom h jobs = (next ()).legFrom h jobs := by
  have hnot : ¬ ((h.session s).attachments = attachments ∧ (h.session s).documents.isEmpty ∧
      (h.session s).state = .started) := fun ⟨hcount, hempty, hstarted⟩ =>
    hidle ⟨hcount, List.isEmpty_iff.mp hempty, hstarted⟩
  have hexpire : (expire s attachments).legFrom h jobs = ⟨h, jobs, .done ()⟩ := by
    rw [expire, legFrom_get]
    dsimp only
    rw [if_neg hnot]
    rfl
  change (Routine.bind _ _).legFrom h jobs = _
  rw [legFrom_bind, hexpire]
  rfl

/-- How a timer goes on that does not find its session idle. -/
theorem IsPatient.leg {p : Program (Option Job)} (hp : IsPatient s attachments p) {h : Hub}
    (hidle : ¬ (h.session s).IsIdle attachments) :
    Hub.Spares s h (p.resumed.legFrom h []).state ∧
      (IsPatient s attachments (p.resumed.legFrom h []).rest ∨
        (p.resumed.legFrom h []).rest = .done none) := by
  cases hp with
  | fresh => exact ⟨spares_startTimer _ h, .inl (.asleep _)⟩
  | asleep deadline =>
    have hleg : ((expire s attachments >>= fun _ => pure none : Program (Option Job)).legFrom h
        []) = ⟨h, [], .done none⟩ := legFrom_expire hidle _ []
    change Hub.Spares s h (Routine.legFrom (expire s attachments >>= _) h []).state ∧ _
    exact ⟨hleg ▸ .refl s h, .inr (congrArg Stage.rest hleg)⟩

theorem IsPatient.following {p : Program (Option Job)} (hp : IsPatient s attachments p) {id : Nat}
    {t : RunningTask Job Hub} (ht : t ∈ Machine.following Job.program id p) :
    IsPatient s attachments t.rest := by
  cases hp with
  | fresh => exact List.mem_singleton.mp ht ▸ .fresh
  | asleep deadline => exact List.mem_singleton.mp ht ▸ .asleep deadline

end Session

/-! ## Every run -/

namespace Lifecycle

open Session

variable {s attachments id : Nat} {m : Machine Job Hub}

/-- The timer that has this id, if it is still there, has not looked at its session yet. -/
def Waits (s attachments id : Nat) (m : Machine Job Hub) : Prop :=
  ∀ t ∈ m.tasks, t.id = id → IsPatient s attachments t.rest

theorem Waits.step (hm : Waits s attachments id m) (hid : id < m.nextTask)
    (hidle : ¬ (m.state.session s).IsIdle attachments) (action : Action) :
    Waits s attachments id (step m action) := by
  intro t' ht' hid'
  cases action with
  | goOn place =>
    rcases Machine.of_mem_advance place ht' (hid' ▸ hid) with hold | ⟨t, ht, -, hnext⟩
    · exact hm t' hold hid'
    · have hpatient := hm t ht ((Machine.id_following hnext).symm.trans hid')
      obtain ⟨-, hrest | hdone⟩ := hpatient.leg hidle
      · exact hrest.following hnext
      · rw [hdone] at hnext
        cases hnext
  | call slot c =>
    rcases List.mem_append.mp ht' with hold | hnew
    · exact hm t' hold hid'
    · rw [List.mem_singleton.mp hnew] at hid'
      exact absurd hid' (Nat.ne_of_gt hid)
  | others change => exact hm t' ht' hid'

/-- A timer waits until it finds its session idle. -/
theorem Waits.run (hm : Waits s attachments id m) (hid : id < m.nextTask) (actions : List Action) :
    Waits s attachments id (run m actions) ∨
      ∃ earlier, earlier <+: actions ∧ ((run m earlier).state.session s).IsIdle attachments := by
  induction actions generalizing m with
  | nil => exact .inl hm
  | cons action rest ih =>
    by_cases hidle : (m.state.session s).IsIdle attachments
    · exact .inr ⟨[], List.nil_prefix, hidle⟩
    · rcases ih (hm.step hid hidle action) (nextTask_step action hid) with hlast | hearlier
      · exact .inl hlast
      · obtain ⟨earlier, hprefix, hidle'⟩ := hearlier
        exact .inr ⟨action :: earlier, List.cons_prefix_cons.mpr ⟨rfl, hprefix⟩, hidle'⟩

/-- What a timer does next spares its session, unless there was a moment since its start at which
it found the session idle. No document had come or gone through a call until then. -/
theorem idle_of_timer {h : Hub} {before after : List Action}
    (hactions : ∀ action ∈ before ++ after, action.IsAt s) {t t' : RunningTask Job Hub}
    (ht : t ∈ (run (.ofState h) before).tasks)
    (htimer : t.rest = Job.program (.stopWhenIdle s attachments))
    (hcount : ((run (.ofState h) before).state.session s).attachments = attachments)
    (ht' : t' ∈ (run (.ofState h) (before ++ after)).tasks) (hid : t'.id = t.id) :
    Hub.Spares s (run (.ofState h) (before ++ after)).state
        (t'.rest.resumed.legFrom (run (.ofState h) (before ++ after)).state []).state ∨
      ∃ between, between <+: after ∧
        ((run (.ofState h) (before ++ between)).state.session s).IsIdle attachments ∧
        ∀ sooner, sooner <+: between →
          ((run (.ofState h) (before ++ sooner)).state.session s).attachments = attachments := by
  rw [List.forall_mem_append] at hactions
  have hconducted := conducted_run (s := s) (m := .ofState h) nofun hactions.1
  have htidy := tidy_run (Machine.tidy_ofState h) before
  simp only [run_append] at ht' ⊢
  generalize run (.ofState h) before = m at *
  have hsame : ∀ between, between <+: after →
      ((run m between).state.session s).IsIdle attachments → ∀ sooner, sooner <+: between →
        ((run m sooner).state.session s).attachments = attachments := by
    intro between hbetween hidle sooner hsooner
    have hat : ∀ action ∈ between, action.IsAt s := fun action haction =>
      hactions.2 action (hbetween.subset haction)
    exact hcount ▸ attachments_of_prefix hconducted hat (hidle.1.trans hcount.symm) hsooner
  have hwaits : Waits s attachments t.id m := fun u hu huid =>
    htidy.unique ht hu huid ▸ htimer ▸ .fresh
  rcases hwaits.run (htidy.issued t ht) after with hlast | ⟨between, hbetween, hidle⟩
  · by_cases hidle : ((run m after).state.session s).IsIdle attachments
    · exact .inr ⟨after, List.prefix_refl after, hidle, hsame after (List.prefix_refl after) hidle⟩
    · exact .inl ((hlast t' ht' hid).leg hidle).1
  · exact .inr ⟨between, hbetween, hidle, hsame between hbetween hidle⟩

/-- The last document of a session is disconnected, and nothing else happens until the timer is
over. -/
theorem idle_of_timer_over :
    let h : Hub := { Hub.new .empty [] ⟨⟨1000⟩, ⟨1000⟩, ⟨0⟩, .notification⟩ with
      sessions := [{ Session.new "a" 0 .application [] .factory with
        state := .started, documents := [("file:///d", 0)] }] }
    let before : List Action := [.call 0 (.disconnect 0 "file:///d"), .goOn 0, .goOn 0]
    let after : List Action := [.goOn 0, .goOn 0]
    let m := run (.ofState h) (before ++ after)
    let timer : RunningTask Job Hub := ⟨1, Job.program (.stopWhenIdle 0 1)⟩
    (∀ action ∈ before ++ after, action.IsAt 0) ∧
      timer ∈ (run (.ofState h) before).tasks ∧
      ((run (.ofState h) before).state.session 0).attachments = 1 ∧
      (∃ t ∈ m.tasks, t.id = timer.id ∧
        (Hub.Spares 0 m.state (t.rest.resumed.legFrom m.state []).state ∨
          ∃ between, between <+: after ∧
            ((run (.ofState h) (before ++ between)).state.session 0).IsIdle 1 ∧
            ∀ sooner, sooner <+: between →
              ((run (.ofState h) (before ++ sooner)).state.session 0).attachments = 1)) ∧
      ((step m (.goOn 0)).state.session 0).state = .stopping := by
  intro h before after m timer
  have hactions : ∀ action ∈ before ++ after, action.IsAt 0 := by
    simp only [before, after, List.cons_append, List.nil_append, List.forall_mem_cons]
    exact ⟨rfl, trivial, trivial, trivial, trivial, nofun⟩
  have htasks : (run (.ofState h) before).tasks = [timer] := by
    subst h before timer
    rfl
  have htimer : timer ∈ (run (.ofState h) before).tasks := htasks ▸ List.mem_singleton_self timer
  have hcount : ((run (.ofState h) before).state.session 0).attachments = 1 := by decide +kernel
  have hthere : ∃ t ∈ m.tasks, t.id = timer.id := by decide +kernel
  obtain ⟨t, ht, hid⟩ := hthere
  have hstopping : ((step m (.goOn 0)).state.session 0).state = .stopping := by decide +kernel
  exact ⟨hactions, htimer, hcount,
    ⟨t, ht, hid, idle_of_timer hactions htimer rfl hcount ht hid⟩, hstopping⟩

/-- A document is connected while the timer waits for its turn: the call has its document, and
then the timer stops the session. -/
theorem stopping_with_document :
    let h : Hub := { Hub.new .empty [] ⟨⟨1000⟩, ⟨1000⟩, ⟨0⟩, .notification⟩ with
      sessions := [.new "a" 0 .application [] .factory], launches := [("a", [.opened none none])] }
    let answer : Response :=
      ⟨"2.0", some (.number 1), some (.mkObj [("capabilities", .mkObj [])]), none⟩
    let connect : Call := .connect 0 ⟨"file:///d", "/d", ⟨"x", []⟩⟩ "t"
    let actions : List Action :=
      .call 0 connect :: List.replicate 8 (.goOn 0) ++
        [.goOn 1, .others (Hub.onClient 0 (·.deliver (.number 1) answer))] ++
        List.replicate 4 (.goOn 1) ++
        [.goOn 2, .goOn 2, .call 1 (.disconnect 0 "file:///d")] ++ List.replicate 5 (.goOn 2) ++
        [.call 2 connect, .goOn 3, .goOn 2, .goOn 2, .goOn 3, .goOn 3, .goOn 2]
    let m := run (.ofState h) actions
    m.state.outcomes.map (·.1) = [0, 1, 2] ∧ (m.state.session 0).state = .stopping ∧
      (m.state.session 0).documents.map (·.1) = ["file:///d"] := by
  decide +kernel

end Lifecycle

end LanguageHub
