import LanguageHub.Proofs.Lifecycle.Running
import LanguageHub.Proofs.Manners.Starting

/-!
# Good manners in every run

Any number of calls may run at any number of sessions, beside the readers of all clients, and
servers may send whatever they like. In whatever order the tasks take turns, each client introduces
itself first, and each says nothing new once it has said goodbye.
-/

namespace LanguageHub

/-- The call has to do with servers through sessions only. -/
def Call.IsThroughSessions : Call → Prop
  | startSession _ | stopSession _ | restartSession _ | pushSettings _ => True
  | connect .. | disconnect .. | commit .. | save .. => True
  | ask _ | cancelAfter .. => True
  | _ => False

/-- No link was opened yet, and nobody has anything to say. -/
structure Hub.IsUnspoken (h : Hub) : Prop where
  links : h.links = []
  clients : h.clients = []
  speaker : ∀ s, h.speaker s = none
  queue : ∀ c, h.queue c = .free

namespace Manners

open Routine Pact
open Lifecycle (Action step run run_append)

variable {me c l : Nat} {w w' : World} {h : Hub} {m : Machine Job Hub} {actions : List Action}

/-! ## Tasks -/

theorem behaves_call {m : Moment (pact me)} {c : Call} (hc : c.IsThroughSessions) :
    Behaves c.program m := by
  cases c with
  | startSession s => exact (behaves_start s).orderly fun _ _ => orderly_pure _
  | stopSession s => exact (orderly_stop s).behaves_then
  | restartSession s => exact (behaves_restart s).orderly fun _ _ => orderly_pure _
  | pushSettings s => exact (orderly_pushSettings s).behaves_then
  | connect s document text =>
    exact (behaves_connect s document text).orderly fun _ _ => orderly_pure _
  | disconnect s uri => exact (orderly_disconnect s uri).behaves_then
  | commit s uri => exact (orderly_commit s uri).behaves_then
  | save s uri text => exact (orderly_save s uri text).behaves_then
  | ask r => exact (orderly_of_abides (abides_run r)).behaves_then
  | cancelAfter cancellation delay =>
    refine (IsOrderly.bind (orderly_of_abides (abides_sleep delay)) fun _ _ _ =>
      .bind (orderly_quiet fun _ _ => ?_) fun _ _ _ => orderly_pure _).behaves
    exact .of_eq rfl rfl rfl rfl
  | _ => exact hc.elim

/-- A task ends with a job of its own or without one. -/
def goal (me : Nat) (m : Moment (pact me)) (r : Option Job) : Prop :=
  m.Sound ∧ ∀ job, r = some job → job.IsOwn

theorem keeps_job {m : Moment (pact me)} {job : Job} (hjob : job.IsOwn) (hm : m.Sound) :
    job.program.Keeps (fun _ _ => True) m (goal me) := by
  have hnone : ∀ {p : Program Unit}, IsOrderly p m →
      (p >>= fun _ => pure none : Program (Option Job)).Keeps (fun _ _ => True) m (goal me) :=
    fun hp => keeps_bind.mpr ((hp hm).mono fun _ _ hend => ⟨hend.sound, nofun⟩)
  cases job with
  | read c =>
    refine keeps_bind.mpr ((orderly_of_abides abides_listen hm).mono fun m' goesOn hend => ?_)
    refine ⟨hend.sound, fun next hnext => ?_⟩
    cases goesOn with
    | true => exact Option.some.inj hnext ▸ trivial
    | false => cases hnext
  | watchConnection s c epoch => exact hnone (orderly_watchConnection s c epoch)
  | stopWhenIdle s attachments => exact hnone (orderly_stopWhenIdle s attachments)
  | watchRegistry cursor => exact hjob.elim
  | call slot c => exact hjob.elim

theorem keeps_background {m : Moment (pact me)} (slot : Nat) {c : Call} (hc : c.IsThroughSessions)
    (hm : m.Sound) (hcalm : Calm m) :
    (Job.call slot c).program.Keeps (fun _ _ => True) m (goal me) := by
  refine keeps_bind.mpr ((behaves_call hc hm hcalm).mono fun m' outcome hsound => ?_)
  have hfinish : IsOrderly (modify (Hub.finish slot outcome)) m' :=
    orderly_quiet fun _ _ => .of_eq rfl rfl rfl rfl
  exact keeps_bind.mpr ((hfinish hsound).mono fun _ _ hend => ⟨hend.sound, nofun⟩)

theorem waits_of_keeps {p : Program (Option Job)} (hp : ∀ m : Moment (pact me), m.Sound → Calm m →
    p.Keeps (fun _ _ => True) m (goal me)) : p.Waits (P := pact me) w (goal me) :=
  Routine.waits_of_keeps (fun v => .refl v) fun v hv _ => hp _ (sound_resume hv) (calm_resume v)

/-! ## The crew -/

abbrev Crew (m : Machine Job Hub) (w : World) : Prop := Company.Crew company goal m w

theorem Crew.goOn (hcrew : Crew m w) (place : Nat) :
    ∃ w' me, Crew (m.advance Job.program place) w' ∧ Guarantee me w w' := by
  cases ht : m.tasks[place]? with
  | none =>
    rw [Machine.advance_of_none ht]
    exact ⟨w, 0, hcrew, .refl w⟩
  | some t =>
    by_cases hready : t.rest.isReady m.state = true
    · obtain ⟨w', hadv⟩ := Company.Crew.advances hcrew (List.mem_of_getElem? ht) hready
        (passes_of_forall (fun _ _ => trivial) _ _) fun _ _ _ h => h.1
      refine ⟨w', t.id, Company.Crew.advance hcrew trivial ht hready hadv (fun job hjob _ _ => ?_)
        fun job hjob => ?_, hadv.guarantee⟩
      · exact waits_of_keeps fun _ hm _ => keeps_job hjob hm
      · obtain ⟨m', -, -, hgoal⟩ := hadv.ended _ hjob
        exact waits_of_keeps fun _ hm _ => keeps_job (hgoal.2 job rfl) hm
    · rw [Machine.advance_of_not_ready ht hready]
      exact ⟨w, 0, hcrew, .refl w⟩

/-- A call goes through sessions, and whatever else happens says nothing. -/
def IsPolite : Action → Prop
  | .goOn _ => True
  | .call _ c => c.IsThroughSessions
  | .others change => ∀ h, Quiet (fun _ _ => False) (fun _ => False) h (change h)

/-- Whoever says nothing keeps the pact of any task. -/
theorem guarantee_of_quiet (me : Nat) (hw : w.Inv)
    (hquiet : Quiet (fun _ _ => False) (fun _ => False) w.hub h) :
    (w.move me h).Inv ∧ Guarantee me w (w.move me h) := by
  have hmine : w.Quiet me h := hquiet.mono (fun _ _ => False.elim) fun _ => False.elim
  have hacts := (hmine.minds hw).toActs
  exact ⟨hacts.inv hw, hacts.binds hw, fun _ _ => Or.imp_right And.left, fun _ => id⟩

theorem Crew.step (hcrew : Crew m w) {action : Action} (haction : IsPolite action) :
    ∃ w' me, Crew (Lifecycle.step m action) w' ∧ Guarantee me w w' := by
  cases action with
  | goOn place => exact Crew.goOn hcrew place
  | call slot c =>
    refine ⟨w, 0, Company.Crew.start hcrew ?_, .refl w⟩
    exact waits_of_keeps fun _ hm hcalm => keeps_background slot haction hm hcalm
  | others change =>
    have hw : w.Inv := hcrew.inv
    -- A task that does not exist yet makes the change.
    obtain ⟨hinv, hguarantee⟩ := guarantee_of_quiet m.nextTask hw (haction w.hub)
    have hstate : w.hub = m.state := hcrew.state
    refine ⟨_, m.nextTask, ?_, hguarantee⟩
    rw [Lifecycle.step, Machine.modify, ← hstate]
    exact Company.Crew.outside hcrew hinv fun id hid =>
      company.rely_of_guarantee (Nat.ne_of_lt hid) trivial hw hinv hguarantee

theorem crew_ofState (hh : h.IsUnspoken) : Crew (.ofState h)
    ⟨h, fun _ _ => 0, fun _ => 0, fun _ => False, fun _ _ => False, fun _ _ => False,
      fun _ _ => False⟩ where
  state := rfl
  inv := by
    have hnobody : ∀ c, ¬ c < h.clients.length := by
      rw [hh.clients]
      exact fun _ => Nat.not_lt_zero _
    have hspeaks : ∀ c, ¬ h.Speaks c := by
      rintro c ⟨s, hs⟩
      cases (hh.speaker s).symm.trans hs
    have hlive : ∀ c, ¬ h.Live c := fun c hlive => hspeaks c hlive.speaks
    constructor
    case linked => exact fun c hc => absurd hc (hnobody c)
    case apart => exact fun c hc => absurd hc (hnobody c)
    case silent =>
      intro l _
      change (h.link l).words = []
      rw [Hub.link, hh.links]
      rfl
    case spoke => exact fun c hc => hspeaks c hc
    case known => exact fun _ => False.elim
    case single => exact fun s _ _ hs => absurd ⟨s, hs⟩ (hspeaks _)
    case mannered => exact fun c hc => absurd hc (hnobody c)
    case ordered =>
      intro c
      change (h.queue c).Ordered
      rw [hh.queue]
      exact Lock.ordered_free
    case early => exact fun c => .none (hlive c)
    case asked => exact fun c => .none (hlive c)
  issued _ ht := absurd ht List.not_mem_nil
  distinct := .nil
  waits _ ht := absurd ht List.not_mem_nil

/-! ## What came before -/

/-- So it was with the client of the link at some time in the run. -/
def Once (h : Hub) (actions : List Action) (l : Nat) (F : Hub → Nat → Prop) : Prop :=
  ∃ before after c, actions = before ++ after ∧
    ((run (.ofState h) before).state.client c).link = l ∧ F (run (.ofState h) before).state c

variable {F : Hub → Nat → Prop}

theorem Once.later (honce : Once h actions l F) (rest : List Action) :
    Once h (actions ++ rest) l F := by
  obtain ⟨before, after, c, rfl, hlink, hF⟩ := honce
  exact ⟨before, after ++ rest, c, List.append_assoc .., hlink, hF⟩

theorem Crew.once (hcrew : Crew (run (.ofState h) actions) w) (hF : F w.hub c) :
    Once h actions (w.hub.client c).link F := by
  have hstate : w.hub = (run (.ofState h) actions).state := hcrew.state
  rw [hstate] at hF ⊢
  exact ⟨actions, [], c, (List.append_nil _).symm, rfl, hF⟩

/-- What proofs remember has happened. -/
structure Remembers (h : Hub) (actions : List Action) (w : World) : Prop where
  crew : Crew (run (.ofState h) actions) w
  known : ∀ c r, w.answered c r → c < w.hub.clients.length
  answered : ∀ c r, w.answered c r → Once h actions (w.hub.client c).link (·.Answers · r)
  ran : ∀ c, w.ran c → Once h actions (w.hub.client c).link (·.Speaks ·)

theorem Remembers.step (hw : Remembers h actions w) {action : Action} (haction : IsPolite action) :
    ∃ w', Remembers h (actions ++ [action]) w' := by
  obtain ⟨w', me, hcrew, hguarantee⟩ := hw.crew.step haction
  have hrun : Crew (run (.ofState h) (actions ++ [action])) w' := by
    rw [run_append]
    exact hcrew
  have hinv : w.Inv := hw.crew.inv
  have hbinds := hguarantee.binds
  refine ⟨w', hrun, fun c r hr => ?_, fun c r hr => ?_, fun c hc => ?_⟩
  · refine Nat.lt_of_lt_of_le ?_ hbinds.clients
    exact (hguarantee.answered c r hr).elim (hw.known c r) Hub.Answers.known
  · rcases hguarantee.answered c r hr with hold | hnew
    · rw [hbinds.link c (hw.known c r hold)]
      exact (hw.answered c r hold).later _
    · rw [hbinds.link c hnew.known]
      exact (hw.crew.once (F := (·.Answers · r)) hnew).later _
  · rcases hguarantee.ran c hc with hold | hnew
    · rw [hbinds.link c (hinv.known c hold)]
      exact (hw.ran c hold).later _
    · exact hrun.once (F := (·.Speaks ·)) hnew

theorem Remembers.run (hw : Remembers h actions w) {rest : List Action}
    (hrest : ∀ action ∈ rest, IsPolite action) : ∃ w', Remembers h (actions ++ rest) w' := by
  induction rest generalizing actions w with
  | nil =>
    rw [List.append_nil]
    exact ⟨w, hw⟩
  | cons action rest ih =>
    rw [List.forall_mem_cons] at hrest
    obtain ⟨w₁, hw₁⟩ := hw.step hrest.1
    obtain ⟨w₂, hw₂⟩ := ih hw₁ hrest.2
    rw [List.append_assoc] at hw₂
    exact ⟨w₂, hw₂⟩

theorem remembers_run (hh : h.IsUnspoken) (hactions : ∀ action ∈ actions, IsPolite action) :
    ∃ w, Remembers h actions w :=
  have hbegin : Remembers h [] _ := ⟨crew_ofState hh, fun _ _ => False.elim,
    fun _ _ => False.elim, fun _ => False.elim⟩
  hbegin.run hactions

/-! ## Every run -/

/-- How the words on a link begin. Whatever follows the introduction was said once the server had
agreed to it, and whatever follows the greetings once a session had run there. -/
inductive Greets (agreed : Request → Prop) (ran : Prop) : List Message → Prop where
  | silent : Greets agreed ran []
  | introduction (r : Request) (hmethod : r.method = "initialize") : Greets agreed ran [.request r]
  | introduced (r : Request) (hmethod : r.method = "initialize") (hagreed : agreed r) :
    Greets agreed ran [.request r, .initialized]
  | running (r : Request) (rest : List Message) (hmethod : r.method = "initialize")
    (hagreed : agreed r) (hran : ran) (hrest : ∀ m ∈ rest, ¬ m.IsGreeting) :
    Greets agreed ran (.request r :: .initialized :: rest)

/-- On every link the client introduces itself first. It says that the introduction is over once an
answer had come that agrees, while it had said nothing else, and says more only once its session had
run. -/
theorem greets_of_run (hh : h.IsUnspoken) (hactions : ∀ action ∈ actions, IsPolite action)
    (l : Nat) : Greets (fun r => Once h actions l (·.Answers · r)) (Once h actions l (·.Speaks ·))
      ((run (.ofState h) actions).state.link l).words := by
  obtain ⟨w, hw⟩ := remembers_run hh hactions
  have hinv : w.Inv := hw.crew.inv
  have hstate : w.hub = (run (.ofState h) actions).state := hw.crew.state
  rw [← hstate]
  by_cases hunused : w.hub.Unused l
  · rw [hinv.silent l hunused]
    exact .silent
  · simp only [Hub.Unused, not_forall, not_not] at hunused
    obtain ⟨c, hc, rfl⟩ := hunused
    have hmannered := hinv.mannered c hc
    by_cases hran : w.ran c
    · obtain ⟨r, rest, hmethod, hanswered, hsaid, hrest⟩ := hmannered.greeted hran
      change Greets _ _ (w.hub.said c)
      rw [hsaid]
      exact .running r rest hmethod (hw.answered c r hanswered) (hw.ran c hran) hrest
    · change Greets _ _ (w.hub.said c)
      rcases hmannered.greets hran with hsaid | ⟨r, hmethod, hsaid | ⟨hsaid, hanswered⟩⟩ <;>
        rw [hsaid]
      · exact .silent
      · exact .introduction r hmethod
      · exact .introduced r hmethod (hw.answered c r hanswered)

theorem polite_goOn (places : List Nat) : ∀ action ∈ places.map Action.goOn, IsPolite action :=
  List.forall_mem_map.mpr fun _ _ => trivial

theorem polite_arrive (l : Nat) (m : Message) :
    IsPolite (.others (Hub.onLink l (·.arrive m.frame))) := fun _ => .onLink <| by
  unfold Link.arrive
  split <;> rfl

/-- A document is connected and the session is stopped while the handshake is under way. -/
theorem greets_of_run_stopped :
    let h : Hub := { Hub.new .empty [] ⟨⟨1000⟩, ⟨1000⟩, ⟨0⟩, .notification⟩ with
      sessions := [.new "a" 0 .application [] .factory], launches := [("a", [.opened none none])] }
    let answer : Message := .success (.number 1) (.mkObj [("capabilities", .mkObj [])])
    let actions : List Action := .call 0 (.startSession 0) :: [0, 0, 0, 0, 0, 0, 0, 1].map .goOn ++
      [.call 1 (.connect 0 ⟨"file:///d", "/d", ⟨"x", []⟩⟩ "t"), .call 2 (.stopSession 0)] ++
      [2, 2].map .goOn ++ [.others (Hub.onLink 0 (·.arrive answer.frame))] ++
      [0, 3, 0, 2, 2, 3, 0, 0, 2, 2, 2, 2, 2].map .goOn
    let words := ((run (.ofState h) actions).state.link 0).words
    h.IsUnspoken ∧ (∀ action ∈ actions, IsPolite action) ∧
      Greets (fun r => Once h actions 0 (·.Answers · r)) (Once h actions 0 (·.Speaks ·)) words ∧
      words.filterMap (·.method?) =
        ["initialize", "initialized", "textDocument/didOpen", "shutdown"] := by
  intro h answer actions words
  have hh : h.IsUnspoken := ⟨rfl, rfl, fun s => by cases s <;> rfl, fun _ => rfl⟩
  have hactions : ∀ action ∈ actions, IsPolite action := by
    simp only [actions, List.forall_mem_append, List.forall_mem_cons]
    exact ⟨⟨⟨⟨⟨trivial, polite_goOn _⟩, trivial, trivial, nofun⟩, polite_goOn _⟩,
      polite_arrive 0 answer, nofun⟩, polite_goOn _⟩
  have hwords : words.filterMap (·.method?) =
      ["initialize", "initialized", "textDocument/didOpen", "shutdown"] := by decide +kernel
  exact ⟨hh, hactions, greets_of_run hh hactions 0, hwords⟩

/-- What follows a goodbye was asked before, or takes back what was. -/
theorem late_of_run (hh : h.IsUnspoken) (hactions : ∀ action ∈ actions, IsPolite action)
    {l : Nat} {before after : List Message} {r : Request} (hmethod : r.method = "shutdown")
    (hsaid : ((run (.ofState h) actions).state.link l).words = before ++ .request r :: after) :
    ∃ n : Nat, r.id = .number n ∧ ∀ m ∈ after, Late (· < n) m := by
  obtain ⟨w, hw⟩ := remembers_run hh hactions
  have hinv : w.Inv := hw.crew.inv
  have hstate : w.hub = (run (.ofState h) actions).state := hw.crew.state
  rw [← hstate] at hsaid
  by_cases hunused : w.hub.Unused l
  · rw [hinv.silent l hunused] at hsaid
    simp at hsaid
  · simp only [Hub.Unused, not_forall, not_not] at hunused
    obtain ⟨c, hc, rfl⟩ := hunused
    have hmannered := hinv.mannered c hc
    change w.hub.said c = _ at hsaid
    obtain ⟨n, hid, hn⟩ := (hmannered.parted r (by simp [hsaid]) hmethod).id
    refine ⟨n, hid, fun m hm => (hmannered.late before r after hsaid hmethod m hm).mono ?_⟩
    exact fun k hk => Nat.lt_of_not_le fun hle => hn ((hinv.asked c).down k n hk hle)

/-- The session is stopped, and its server answers before it is told to exit. -/
theorem late_of_run_stopped :
    let h : Hub := { Hub.new .empty [] ⟨⟨1000⟩, ⟨1000⟩, ⟨0⟩, .notification⟩ with
      sessions := [.new "a" 0 .application [] .factory], launches := [("a", [.opened none none])] }
    let answer : Message := .success (.number 1) (.mkObj [("capabilities", .mkObj [])])
    let consent : Message := .success (.number 2) .null
    let actions : List Action := .call 0 (.startSession 0) :: [0, 0, 0, 0, 0, 0, 0, 1].map .goOn ++
      [.call 1 (.stopSession 0), .others (Hub.onLink 0 (·.arrive answer.frame))] ++
      [0, 1, 1, 0, 1, 1, 2, 0, 2, 2, 2].map .goOn ++
      [.others (Hub.onLink 0 (·.arrive consent.frame))] ++ [0, 2, 1, 1, 1, 2, 0, 0, 0].map .goOn
    let words := ((run (.ofState h) actions).state.link 0).words
    h.IsUnspoken ∧ (∀ action ∈ actions, IsPolite action) ∧
      words.filterMap (·.method?) = ["initialize", "initialized", "shutdown", "exit"] ∧
      ∃ before r after, r.method = "shutdown" ∧ words = before ++ .request r :: after ∧
        ∃ n : Nat, r.id = .number n ∧ ∀ m ∈ after, Late (· < n) m := by
  intro h answer consent actions words
  have hh : h.IsUnspoken := ⟨rfl, rfl, fun s => by cases s <;> rfl, fun _ => rfl⟩
  have hactions : ∀ action ∈ actions, IsPolite action := by
    simp only [actions, List.forall_mem_append, List.forall_mem_cons]
    exact ⟨⟨⟨⟨⟨trivial, polite_goOn _⟩, trivial, polite_arrive 0 answer, nofun⟩, polite_goOn _⟩,
      polite_arrive 0 consent, nofun⟩, polite_goOn _⟩
  have hwords : words.filterMap (·.method?) =
      ["initialize", "initialized", "shutdown", "exit"] ∧ ∃ m ∈ words, m.IsFarewell := by
    decide +kernel
  refine ⟨hh, hactions, hwords.1, ?_⟩
  obtain ⟨m, hmem, hfarewell⟩ := hwords.2
  obtain ⟨before, after, hsaid⟩ := List.append_of_mem hmem
  cases m with
  | request r =>
    exact ⟨before, r, after, hfarewell, hsaid, late_of_run hh hactions hfarewell hsaid⟩
  | notification | response => exact hfarewell.elim

/-- A question is under way while its session is stopped. It is withdrawn after the server was asked
to shut down, and the server is told so. -/
theorem withdrawn_after_farewell :
    let h : Hub := { Hub.new .empty [] ⟨⟨1000⟩, ⟨1000⟩, ⟨0⟩, .notification⟩ with
      sessions := [.new "a" 0 .application [] .factory], launches := [("a", [.opened none none])]
      cancellations := [.new] }
    let answer : Message := .success (.number 1)
      (.mkObj [("capabilities", .mkObj [("hoverProvider", .bool true)])])
    let consent : Message := .success (.number 3) .null
    let actions : List Action := .call 0 (.startSession 0) :: [0, 0, 0, 0, 0, 0, 0, 1].map .goOn ++
      [.others (Hub.onLink 0 (·.arrive answer.frame))] ++ [0, 1, 0, 0, 0, 1].map .goOn ++
      [.call 1 (.ask ⟨.hover ⟨0, 0⟩, "file:///d", [0], 0⟩)] ++ [2, 2, 2, 2].map .goOn ++
      [.call 2 (.stopSession 0)] ++ [3, 3, 3, 3, 3].map .goOn ++ [.others (Hub.cancel 0)] ++
      [2, 3, 3, 3].map .goOn ++ [.others (Hub.onLink 0 (·.arrive consent.frame))] ++
      [0, 2, 1, 1, 1, 2, 0, 0, 0].map .goOn
    let h' := (run (.ofState h) actions).state
    (h'.link 0).words.filterMap (·.method?) = ["initialize", "initialized", "textDocument/hover",
      "shutdown", "$/cancelRequest", "exit"] ∧ (h'.session 0).state = .stopped := by
  decide +kernel

end Manners

end LanguageHub
