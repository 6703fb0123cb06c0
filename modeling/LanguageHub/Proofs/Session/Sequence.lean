import LanguageHub.Proofs.Session.Sitting

/-!
# What servers hear in a sitting

The invariant of a sitting: all tasks keep their pacts, nobody but the task that does what was
asked has a ticket for a send lock, and after a commit nothing is collected for its document.
-/

namespace LanguageHub

open Routine Pact HubMoment

theorem Scene.Committed.still {x y : Scene} {u : String} {turns : Bool} (h : x.Committed u turns)
    (hxy : Still u x y) : y.Committed u turns := by
  intro k hattached hturns
  unfold attached at hattached
  rw [synchronizer, hxy.synchronizers]
  rcases hxy.documents with heq | hempty
  · rw [heq] at hattached
    exact h k hattached hturns
  · rw [hempty] at hattached
    cases hattached

namespace Session

variable {s : Nat} {v : String} {f : Synchronizer → Synchronizer} {h : Hub}

theorem hook_id (s : Nat) (v : String) (h : Hub) : hook s v id h = h := by
  unfold hook
  cases (h.session s).synchronizer? v with
  | none => rfl
  | some k =>
    dsimp only [Hub.onSynchronizer]
    rw [List.modify_id]

theorem lock_hook : (hook s v f h).lock = h.lock := by
  unfold hook
  cases (h.session s).synchronizer? v <;> rfl

end Session

namespace Sitting

variable {s : Nat} {u v : String} {x x' : Sitting} {w w' : World} {id : Nat} {errand : Errand}

/-- How far the edit of a document has come. -/
def phaseOf (x : Sitting) (v : String) : EditPhase :=
  match x.editing with
  | some (uri, phase) => if v = uri then phase else .idle
  | none => .idle

theorem isBusy_iff : x.isBusy = true ↔
    ∃ id errand, x.asked = some (id, errand) ∧ ∃ t ∈ x.machine.tasks, t.id = id := by
  unfold isBusy
  rcases x.asked with _ | ⟨id, errand⟩
  · simp
  · simp only [Option.any_some, List.any_eq_true, beq_iff_eq, Option.some.injEq, Prod.mk.injEq]
    constructor
    · intro ht
      exact ⟨id, errand, ⟨rfl, rfl⟩, ht⟩
    · rintro ⟨id', errand', ⟨rfl, rfl⟩, ht⟩
      exact ht

theorem isIdle_iff : x.isIdle = true ↔ x.isBusy = false ∧ x.editing = none := by
  simp [isIdle]

theorem phaseOf_of_none (h : x.editing = none) : x.phaseOf v = .idle := by
  rw [phaseOf, h]

theorem phaseOf_of_some {uri : String} {phase : EditPhase} (h : x.editing = some (uri, phase)) :
    x.phaseOf v = if v = uri then phase else .idle := by
  rw [phaseOf, h]

theorem isAsked_of_not_busy (hbusy : x.isBusy = false) {t : RunningTask Job Hub}
    (ht : t ∈ x.machine.tasks) : isAsked x.asked t.id = false := by
  rw [Bool.eq_false_iff, ne_eq, isAsked_iff]
  rintro ⟨errand, hasked⟩
  have hyes : x.isBusy = true := isBusy_iff.mpr ⟨t.id, errand, hasked, t, ht, rfl⟩
  exact absurd (hyes.symm.trans hbusy) (by simp)

/-! ## The crew -/

/-- What a task leaves behind when it ends, and the one that was asked for a commit besides. -/
abbrev Done (asked : Option (Nat × Errand)) (a : Actor) (m : HubMoment s u a) (r : Option Job) :
    Prop :=
  Ends true m r ∧ (asked = some (a.id, .commit u) → m.scene.Committed u true)

/-- All tasks keep their pacts, of which only the one that was asked for something is a call. -/
abbrev Crew (s : Nat) (u : String) (asked : Option (Nat × Errand)) (m : Machine Job Hub)
    (w : World) : Prop :=
  CrewOf (s := s) (u := u) (isAsked asked) (Done asked) m w

structure Kept (s : Nat) (u : String) (x : Sitting) (w : World) : Prop where
  crew : Crew s u x.asked x.machine w
  owned : w.IsOwned (isAsked x.asked) x.machine
  alone : w.alone = true
  text : w.text = x.texts u
  phase : w.phase = x.phaseOf u
  issued : ∀ id errand, x.asked = some (id, errand) → id < x.machine.nextTask
  /-- Nothing was asked since an edit is under way. -/
  apart : x.editing.isSome = true → x.asked = none
  committed : ∀ id, x.asked = some (id, .commit u) → x.isBusy = false →
    (w.scene s).Committed u true

theorem Kept.free (h : Kept s u x w) (hbusy : x.isBusy = false) (k : Nat) :
    (w.hub.lock (.send k)).tickets = [] :=
  h.owned.free (fun _ => isAsked_of_not_busy hbusy) k

/-! ## Asking -/

theorem Kept.ask (h : Kept s u x w) (hidle : x.isIdle = true) (slot : Nat) (errand : Errand) :
    Kept s u (step s x (.ask slot errand)) w := by
  obtain ⟨hbusy, hediting⟩ := isIdle_iff.mp hidle
  rw [step, if_pos hidle]
  have hnew : ∀ t ∈ x.machine.tasks, x.machine.nextTask ≠ t.id := fun t ht =>
    Nat.ne_of_gt (h.crew.issued t ht)
  have hcrew : Crew s u (some (x.machine.nextTask, errand)) x.machine w := by
    apply crew_recall h.crew
    · intro t ht
      rw [isAsked_of_not_busy hbusy ht, isAsked, Option.any_some, beq_eq_false_iff_ne]
      exact hnew t ht
    · intro t ht m r hdone
      refine ⟨hdone.1, fun heq => ?_⟩
      rw [Option.some.injEq, Prod.mk.injEq] at heq
      exact absurd heq.1 (hnew t ht)
  have hcall : isAsked (some (x.machine.nextTask, errand)) x.machine.nextTask = true :=
    isAsked_iff.mpr ⟨errand, rfl⟩
  have hground : (w.scene s).Ground u
      ⟨x.machine.nextTask, isAsked (some (x.machine.nextTask, errand)) x.machine.nextTask⟩ true
      (x.texts u) := by
    refine ⟨⟨h.alone, ?_, fun _ => h.text, fun _ => ?_⟩, fun _ => ?_⟩
    · intro k t ht
      have hnone : ((w.scene s).lock (.send k)).tickets = [] := h.free hbusy k
      rw [hnone] at ht
      cases ht
    · exact h.phase.trans (phaseOf_of_none hediting)
    · exact h.owned.quiet fun _ => isAsked_of_not_busy hbusy
  constructor
  case crew =>
    apply Company.Crew.start hcrew
    refine (waits_ofCall hcall slot suits_call hground).mono fun m r hdone => ?_
    refine ⟨hdone.1, fun heq => hdone.2 ?_⟩
    rw [Option.some.injEq, Prod.mk.injEq] at heq
    exact call_eq_commit heq.2
  case owned =>
    intro k t ht
    rw [h.free hbusy k] at ht
    cases ht
  case alone => exact h.alone
  case text => exact h.text
  case phase => exact h.phase
  case issued =>
    rintro id errand' ⟨⟩
    exact Nat.lt_succ_self _
  case apart =>
    intro hsome
    simp [hediting] at hsome
  case committed =>
    intro id _ hnot
    rw [Bool.eq_false_iff, ne_eq, isBusy_iff] at hnot
    have hmem : ⟨x.machine.nextTask, (Job.call slot (errand.call s x.texts)).program⟩ ∈
        (x.machine.start Job.program (.call slot (errand.call s x.texts))).tasks :=
      List.mem_append_right _ (List.mem_singleton_self _)
    exact absurd ⟨_, errand, rfl, _, hmem, rfl⟩ hnot

/-! ## Edits -/

/-- A step of an edit, which is made only while nothing else is being done. -/
theorem Kept.shown (h : Kept s u x w) (hbusy : x.isBusy = false)
    {f : Synchronizer → Synchronizer} {text : Buffer} {phase : EditPhase}
    (hleads : Synchronizer.Leads f (x.texts v) (x.phaseOf v) text phase)
    (hmachine : x'.machine = x.machine.modify (Session.hook s v f))
    (htexts : ∀ v', x'.texts v' = if v' = v then text else x.texts v')
    (hphases : ∀ v', x'.phaseOf v' = if v' = v then phase else x.phaseOf v')
    (hasked : x'.asked = none) : ∃ w', Kept s u x' w' := by
  have hinv : (w.scene s).Inv u := h.crew.inv
  have hedits : (w.scene s).Edits u ((w.scene s).placeOf v) f (x'.texts u) (x'.phaseOf u) := by
    rw [htexts, hphases]
    by_cases hv : u = v
    · subst hv
      rw [if_pos rfl, if_pos rfl]
      rw [← h.text, ← h.phase] at hleads
      exact Scene.edits_own hinv hleads fun hnot => absurd (h.alone.symm.trans hnot) (by simp)
    · rw [if_neg hv, if_neg hv, ← h.text, ← h.phase]
      exact Scene.edits_other hinv (Ne.symm hv) hleads
  have hcrew : Crew s u none x.machine w := by
    apply crew_recall h.crew
    · intro t ht
      exact (isAsked_of_not_busy hbusy ht).symm
    · exact fun _ _ m r hdone => ⟨hdone.1, nofun⟩
  refine ⟨w.edit s v f (x'.texts u) (x'.phaseOf u), ?_⟩
  constructor
  case crew =>
    rw [hasked, hmachine]
    exact crew_edit hcrew nofun hedits
  case owned =>
    intro k t ht
    have hlock : (w.edit s v f (x'.texts u) (x'.phaseOf u)).hub.lock = w.hub.lock :=
      Session.lock_hook
    rw [hlock, h.free hbusy k] at ht
    cases ht
  case alone => exact h.alone
  case text => rfl
  case phase => rfl
  case issued => simp [hasked]
  case apart => exact fun _ => hasked
  case committed => simp [hasked]

theorem Kept.edit (h : Kept s u x w) (hidle : x.isIdle = true) (uri : String) (e : Edit) :
    ∃ w', Kept s u (step s x (.edit uri e)) w' := by
  obtain ⟨hbusy, hediting⟩ := isIdle_iff.mp hidle
  have hleads := Synchronizer.leads_beforeChange (x.texts uri) e
  rw [← phaseOf_of_none (v := uri) hediting] at hleads
  rw [step, if_pos hidle]
  apply h.shown hbusy hleads
  case hmachine => rw [Session.beforeChange_eq]
  case htexts =>
    intro v'
    split
    · rename_i heq
      rw [heq]
    · rfl
  case hphases =>
    intro v'
    rw [phaseOf_of_none hediting]
    rfl
  case hasked => rfl

theorem Kept.proceed (h : Kept s u x w) : ∃ w', Kept s u (step s x .proceed) w' := by
  unfold step
  dsimp only
  split
  · rename_i uri e hediting
    have hasked : x.asked = none := h.apart (by rw [hediting]; rfl)
    have hbusy : x.isBusy = false := by simp [isBusy, hasked]
    have hphase : x.phaseOf uri = .shown e := by rw [phaseOf_of_some hediting, if_pos rfl]
    have hleads := Synchronizer.leads_after (x.texts uri) e
    rw [← hphase] at hleads
    apply h.shown hbusy hleads
    case hmachine => rw [Machine.modify, Session.hook_id]
    case htexts =>
      intro v'
      dsimp only
      split
      · rename_i heq
        rw [heq]
      · rfl
    case hphases =>
      intro v'
      rw [phaseOf_of_some hediting]
      change (if v' = uri then EditPhase.tried else .idle) = _
      split <;> rfl
    case hasked => exact hasked
  · rename_i uri hediting
    have hasked : x.asked = none := h.apart (by rw [hediting]; rfl)
    have hbusy : x.isBusy = false := by simp [isBusy, hasked]
    have hphase : x.phaseOf uri = .tried := by rw [phaseOf_of_some hediting, if_pos rfl]
    have hleads := Synchronizer.leads_afterChange (x.texts uri)
    rw [← hphase] at hleads
    apply h.shown hbusy hleads
    case hmachine => rw [Session.afterChange_eq]
    case htexts =>
      intro v'
      split
      · rename_i heq
        rw [heq]
      · rfl
    case hphases =>
      intro v'
      rw [phaseOf_of_some hediting]
      change EditPhase.idle = _
      split <;> rfl
    case hasked => exact hasked
  · exact ⟨w, h⟩

/-! ## Going on -/

theorem Kept.others (h : Kept s u x w) {change : Hub → Hub}
    (hbeside : Hub.Beside s w.hub (change w.hub)) :
    Kept s u (step s x (.others change)) { w with hub := change w.hub } := by
  constructor
  case crew => exact hbeside.crew h.crew
  case owned => exact h.owned.of_lock { w with hub := change w.hub } hbeside.lock rfl rfl
  case alone => exact h.alone
  case text => exact h.text
  case phase => exact h.phase
  case issued => exact h.issued
  case apart => exact h.apart
  case committed =>
    intro id hasked hbusy
    rw [hbeside.scene]
    exact h.committed id hasked hbusy

/-- What was committed stays so while others go on, and a commit that ends has seen to it. -/
theorem Kept.committed_goOn (h : Kept s u x w) {place : Nat} {t : RunningTask Job Hub}
    (ht : x.machine.tasks[place]? = some t)
    (hadv : Company.Advances (companyOf s u (isAsked x.asked))
      (fun id => Done x.asked ⟨id, isAsked x.asked id⟩) t x.machine w w')
    (hasked : x.asked = some (id, .commit u)) (hbusy : (step s x (.goOn place)).isBusy = false) :
    (w'.scene s).Committed u true := by
  rw [Bool.eq_false_iff, ne_eq, isBusy_iff] at hbusy
  by_cases hmine : t.id = id
  · have hover : (t.rest.resumed.legFrom x.machine.state []).result? = some none := by
      by_contra hrest
      obtain ⟨t', ht', hid⟩ := Machine.exists_mem_advance Job.program ht hrest
      exact hbusy ⟨id, _, hasked, t', ht', hid.trans hmine⟩
    obtain ⟨m', -, rfl, hdone⟩ := hadv.ended _ hover
    exact hdone.2 (hmine.symm ▸ hasked)
  · have hbefore : x.isBusy = false := by
      rw [Bool.eq_false_iff, ne_eq, isBusy_iff]
      rintro ⟨id', errand, hasked', t', ht', rfl⟩
      have heq := hasked.symm.trans hasked'
      rw [Option.some.injEq, Prod.mk.injEq] at heq
      refine hbusy ⟨_, _, hasked', t', Machine.mem_advance ht ht' fun hsame => hmine ?_, rfl⟩
      exact hsame.symm.trans heq.1.symm
    have hguarantee : (w.scene s).Guarantee u ⟨t.id, isAsked x.asked t.id⟩ (w'.scene s) :=
      hadv.guarantee
    refine (h.committed id hasked hbefore).still (hguarantee.still ?_)
    exact isAsked_of_not_busy hbefore (List.mem_of_getElem? ht)

theorem Kept.goOn (h : Kept s u x w) (place : Nat) :
    ∃ w', Kept s u (step s x (.goOn place)) w' := by
  cases ht : x.machine.tasks[place]? with
  | none =>
    refine ⟨w, ?_⟩
    rw [step, Machine.advance_of_none ht]
    exact h
  | some t =>
    by_cases hready : t.rest.isReady x.machine.state = true
    · have hcalls : ∀ id, isAsked x.asked id = true → id < x.machine.nextTask := fun id hid =>
        (isAsked_iff.mp hid).elim fun errand hasked => h.issued id errand hasked
      have hdone : ∀ id (m : HubMoment s u ⟨id, isAsked x.asked id⟩) r,
          isAsked x.asked id = false → Ends true m r → Done x.asked _ m r := by
        intro id m r hnot hends
        refine ⟨hends, fun hasked => ?_⟩
        rw [isAsked_iff.mpr ⟨_, hasked⟩] at hnot
        cases hnot
      obtain ⟨w', hcrew, hadv⟩ := crew_advance h.crew agrees_isAsked ht hready
        (passes_of_forall (fun _ _ hno => absurd (h.alone.symm.trans hno) (by simp)) _ _) hcalls
        (fun _ _ _ hdone => hdone.1) hdone
      have hguarantee : (w.scene s).Guarantee u ⟨t.id, isAsked x.asked t.id⟩ (w'.scene s) :=
        hadv.guarantee
      refine ⟨w', ?_⟩
      constructor
      case crew => exact hcrew
      case owned => exact h.owned.advance ht (fun _ _ _ hdone => hdone.1) hadv
      case alone => exact hguarantee.alone.trans h.alone
      case text => exact hguarantee.text.trans h.text
      case phase => exact hguarantee.phase.trans h.phase
      case issued =>
        intro id errand hasked
        exact Machine.nextTask_advance place (h.issued id errand hasked)
      case apart => exact h.apart
      case committed => exact fun id hasked hbusy => h.committed_goOn ht hadv hasked hbusy
    · refine ⟨w, ?_⟩
      rw [step, Machine.advance_of_not_ready ht hready]
      exact h

theorem Kept.step (h : Kept s u x w) {event : Event} (hevent : event.IsBeside s) :
    ∃ w', Kept s u (Sitting.step s x event) w' := by
  cases event with
  | goOn place => exact h.goOn place
  | ask slot errand =>
    by_cases hidle : x.isIdle = true
    · exact ⟨w, h.ask hidle slot errand⟩
    · refine ⟨w, ?_⟩
      rw [Sitting.step, if_neg hidle]
      exact h
  | edit uri e =>
    by_cases hidle : x.isIdle = true
    · exact h.edit hidle uri e
    · refine ⟨w, ?_⟩
      rw [Sitting.step, if_neg hidle]
      exact h
  | proceed => exact h.proceed
  | others change => exact ⟨_, h.others (hevent w.hub)⟩

theorem Kept.run (h : Kept s u x w) {events : List Event}
    (hevents : ∀ event ∈ events, event.IsBeside s) :
    ∃ w', Kept s u (Sitting.run s x events) w' := by
  induction events generalizing x w with
  | nil => exact ⟨w, h⟩
  | cons event rest ih =>
    rw [List.forall_mem_cons] at hevents
    obtain ⟨w', hnext⟩ := h.step hevents.1
    exact ih hnext hevents.2

/-! ## Every sitting -/

theorem inv_ofFresh {h : Hub} (hfresh : h.IsFresh s) (text : Buffer) (alone : Bool) :
    (World.scene s ⟨h, text, .idle, alone, fun _ _ => 0, fun _ => False⟩).Inv u := by
  obtain ⟨serverId, definition, scope, roots, connection, hnew⟩ := hfresh.session
  have hsession : h.session s = .new serverId definition scope roots connection := by
    rw [Hub.session, hnew]
    rfl
  generalize hx : World.scene s ⟨h, text, .idle, alone, fun _ _ => 0, fun _ => False⟩ = x
  have hknown : x.isKnown = true := by
    rw [← hx]
    exact decide_eq_true (List.getElem?_eq_some_iff.mp hnew).1
  have hstate : x.state = .notStarted := by
    rw [← hx]
    exact congrArg Session.state hsession
  have hdocuments : x.documents = [] := by
    rw [← hx]
    exact congrArg Session.documents hsession
  have hspeaker : x.speaker = none := by
    rw [← hx]
    exact congrArg (fun session : Session => session.running.map (·.client)) hsession
  have hclients : x.clients = 0 := by
    rw [← hx]
    exact congrArg List.length hfresh.clients
  have hsynchronizers : x.synchronizers = [] := by
    rw [← hx]
    exact hfresh.synchronizers
  have hlock : ∀ n, x.lock n = .free := by
    intro n
    rw [← hx]
    change h.lock n = .free
    rw [Hub.lock, hfresh.locks]
    rfl
  have hframes : ∀ i, x.frames i = [] := by
    intro i
    rw [← hx]
    change (h.link i).outgoing = []
    rw [Hub.link, hfresh.links]
    rfl
  have hspoken : ∀ c, ¬ x.spoken c := by
    intro c
    rw [← hx]
    exact id
  have hconcerns : ∀ k, ¬ x.Concerns u k := by
    intro k hk
    have hlt := hk.1
    rw [hsynchronizers] at hlt
    exact absurd hlt (Nat.not_lt_zero _)
  have hattached : ∀ k, x.attached u ≠ some k := by
    intro k
    rw [Scene.attached, hdocuments]
    simp
  have hfront : ∀ i, ¬ x.Front i := by
    intro i hi
    have hstarted := hi.1
    rw [hstate] at hstarted
    cases hstarted
  constructor
  case known => exact hknown
  case wired =>
    constructor
    case speaker => simp [hspeaker]
    case spoken => exact fun c hc => absurd hc (hspoken c)
    case links => simp [hclients]
    case injective => simp [hclients]
    case bare => exact fun i _ => hframes i
    case conforms =>
      intro i
      rw [Scene.heard, hframes]
      exact ⟨none, none, DocumentNotice.conversation_nil⟩
    case voiced =>
      intro i hi
      rw [Scene.heard, hframes] at hi
      exact absurd rfl hi
  case filed =>
    constructor
    case nodup => simp [hdocuments]
    case synchronized => simp [hdocuments]
    case empty => exact fun _ => hdocuments
  case locked =>
    constructor
    case valid =>
      intro n
      rw [hlock]
      exact Lock.valid_free
    case inUse => simp [hlock, Lock.free, Lock.isFree]
    case single => exact fun k hk => absurd hk (hattached k)
    case exclusive => exact fun k _ hk => absurd hk (hconcerns k)
    case quiet => exact fun _ _ _ k hk => absurd hk (hconcerns k)
  case tidy =>
    intro n _
    cases n with
    | lifecycle s => exact fun _ => .inl hstate
    | provider s => trivial
    | writer c => trivial
    | send k => exact fun hk => absurd hk (hconcerns k)
  case closed => exact fun i hi => absurd hi (hfront i)
  case recalled => exact fun k hk => absurd hk (hattached k)

theorem kept_start {h : Hub} (hfresh : h.IsFresh s) (texts : String → Buffer) (u : String) :
    Kept s u (start h texts) ⟨h, texts u, .idle, true, fun _ _ => 0, fun _ => False⟩ := by
  constructor
  case crew => exact ⟨rfl, inv_ofFresh hfresh _ _, by simp [start, Machine.ofState], .nil,
      by simp [start, Machine.ofState]⟩
  case owned =>
    intro k t ht
    simp [Hub.lock, hfresh.locks, Lock.free, Lock.tickets] at ht
  case alone => rfl
  case text => rfl
  case phase => rfl
  case issued => simp [start]
  case apart => exact fun _ => rfl
  case committed => simp [start]

/-- After a commit the server has the editor's text. -/
theorem Kept.copied (h : Kept s u x w) {i : Nat} (hcommitted : x.committed? = some u)
    (hspeaks : x.hub.SpeaksOver s i) (hsync : x.hub.Synchronizes s u) :
    ∃ version, DocumentNotice.Conversation (x.hub.told u i) version (some (x.texts u)) := by
  obtain ⟨hbusy, id, hasked⟩ : x.isBusy = false ∧ ∃ id, x.asked = some (id, .commit u) := by
    unfold committed? at hcommitted
    split at hcommitted
    · cases hcommitted
    · rename_i hnot
      obtain ⟨⟨id, errand⟩, hasked, herrand⟩ := Option.bind_eq_some_iff.mp hcommitted
      refine ⟨Bool.eq_false_iff.mpr hnot, id, ?_⟩
      cases errand <;> cases herrand
      exact hasked
  have hidle : w.phase = .idle := by
    rw [h.phase]
    apply phaseOf_of_none
    cases hediting : x.editing with
    | none => rfl
    | some edit =>
      have hnone := h.apart (by rw [hediting]; rfl)
      rw [hasked] at hnone
      cases hnone
  have hinv : (w.scene s).Inv u := h.crew.inv
  have hstate : w.hub = x.hub := h.crew.state
  rw [← hstate] at hspeaks hsync ⊢
  obtain ⟨c, hclient, hopen, hlink⟩ := hspeaks.client
  have hfront : (w.scene s).Front i := by
    refine ⟨hspeaks.started, c, hclient, hopen, hlink, ?_⟩
    exact congrArg Option.isSome hspeaks.writable
  obtain ⟨k, hk, hkind⟩ := hsync
  have hattached : (w.scene s).attached u = some k := hk
  have hfree : ((w.scene s).lock (.send k)).isFree = true :=
    Lock.isFree_of_tickets (h.free hbusy k)
  have hconcerns : (w.scene s).Concerns u k := hinv.filed.of_lookup hattached
  obtain ⟨copy, hconversation, hmirrors⟩ :=
    hinv.tidy (.send k) hfree hconcerns i hfront hattached
  obtain ⟨b, rfl, htracks, -⟩ := hmirrors hkind
  have htracks' : ((w.scene s).synchronizer k).Tracks b (x.texts u) .idle := by
    rw [← h.text, ← hidle]
    exact htracks
  -- Nothing is collected, so the copy is the text.
  obtain ⟨changes, hpending, hreceive⟩ := htracks'.exists_ready_of_idle
  have hspent : ((w.scene s).synchronizer k).pending = [] :=
    h.committed id hasked hbusy k hattached rfl
  rw [hspent, eq_comm, List.map_eq_nil_iff] at hpending
  rw [hpending, Buffer.receiveAll_nil] at hreceive
  cases hreceive
  exact ⟨_, hconversation⟩

/-- Each server heard of the document in periods, and what it was told gives the editor's text if
the document was committed. -/
theorem Kept.told (h : Kept s u x w) (i : Nat) :
    ∃ notices : List DocumentNotice,
      x.hub.told u i = notices.map (·.message) ∧ DocumentNotice.InPeriods u notices ∧
      (x.committed? = some u → x.hub.SpeaksOver s i → x.hub.Synchronizes s u →
        notices.foldl DocumentNotice.copied none = some (x.texts u)) := by
  have habout : ∀ m ∈ x.hub.told u i, m.isAbout u = true := fun m hm => (List.mem_filter.mp hm).2
  by_cases hcommitted : x.committed? = some u ∧ x.hub.SpeaksOver s i ∧ x.hub.Synchronizes s u
  · obtain ⟨version, hconversation⟩ := h.copied hcommitted.1 hcommitted.2.1 hcommitted.2.2
    obtain ⟨notices, htold, hperiods, hcopy⟩ := hconversation.periods habout
    exact ⟨notices, htold, hperiods, fun _ _ _ => hcopy⟩
  · have hinv : (w.scene s).Inv u := h.crew.inv
    have hstate : w.hub = x.hub := h.crew.state
    obtain ⟨version, copy, hconversation⟩ := hinv.wired.conforms i
    change DocumentNotice.Conversation (w.hub.told u i) version copy at hconversation
    rw [hstate] at hconversation
    obtain ⟨notices, htold, hperiods, -⟩ := hconversation.periods habout
    exact ⟨notices, htold, hperiods, fun h₁ h₂ h₃ => absurd ⟨h₁, h₂, h₃⟩ hcommitted⟩

/-- In every sitting each server hears of a document in periods, and what it was told gives the
editor's text whenever the document was committed. -/
theorem told_of_run {h : Hub} (hfresh : h.IsFresh s) (texts : String → Buffer)
    {events : List Event} (hevents : ∀ event ∈ events, event.IsBeside s) (u : String) (i : Nat) :
    ∃ notices : List DocumentNotice,
      (run s (start h texts) events).hub.told u i = notices.map (·.message) ∧
      DocumentNotice.InPeriods u notices ∧
      ((run s (start h texts) events).committed? = some u →
        (run s (start h texts) events).hub.SpeaksOver s i →
        (run s (start h texts) events).hub.Synchronizes s u →
        notices.foldl DocumentNotice.copied none =
          some ((run s (start h texts) events).texts u)) := by
  obtain ⟨w, hkept⟩ := (kept_start hfresh texts u).run hevents
  exact hkept.told i

/-- A document is opened, edited and committed. -/
theorem told_of_run_committed :
    let h : Hub := { Hub.new .empty [] ⟨⟨1000⟩, ⟨1000⟩, ⟨0⟩, .notification⟩ with
      sessions := [.new "a" 0 .application [] .factory], launches := [("a", [.opened none none])] }
    let capabilities : Json := .mkObj [("textDocumentSync", .ofNat 2)]
    let answer : Response :=
      ⟨"2.0", some (.number 1), some (.mkObj [("capabilities", capabilities)]), none⟩
    let events : List Event :=
      .ask 0 (.connect ⟨"file:///d", "/d", ⟨"x", []⟩⟩) :: List.replicate 7 (.goOn 0) ++
        [.goOn 1, .others (Hub.onClient 0 (·.deliver (.number 1) answer)), .goOn 1, .goOn 1,
          .goOn 1, .goOn 1, .goOn 2, .edit "file:///d" ⟨1, 0, "!"⟩, .proceed, .proceed,
          .ask 1 (.commit "file:///d"), .goOn 2, .goOn 2, .goOn 2, .goOn 2]
    let x := run 0 (start h fun _ => ⟨"t"⟩) events
    h.IsFresh 0 ∧ (∀ event ∈ events, event.IsBeside 0) ∧
      (x.committed? = some "file:///d" ∧ x.hub.SpeaksOver 0 0 ∧
        x.hub.Synchronizes 0 "file:///d") ∧
      ∃ notices : List DocumentNotice,
        x.hub.told "file:///d" 0 = notices.map (·.message) ∧ notices.length = 2 ∧
        DocumentNotice.InPeriods "file:///d" notices ∧
        notices.foldl DocumentNotice.copied none = some ⟨"t!"⟩ := by
  intro h capabilities answer events x
  have hfresh : h.IsFresh 0 := ⟨⟨_, _, _, _, _, rfl⟩, rfl, rfl, rfl, rfl⟩
  have hevents : ∀ event ∈ events, event.IsBeside 0 := by
    have hanswer : Event.IsBeside 0 (.others (Hub.onClient 0 (·.deliver (.number 1) answer))) :=
      Hub.beside_deliver 0 (.number 1) answer
    simp only [events, List.cons_append, List.replicate, List.nil_append, List.forall_mem_cons]
    exact ⟨trivial, trivial, trivial, trivial, trivial, trivial, trivial, trivial, trivial,
      hanswer, trivial, trivial, trivial, trivial, trivial, trivial, trivial, trivial, trivial,
      trivial, trivial, trivial, trivial, by simp⟩
  have hfacts : (fun x : Sitting => x.committed? = some "file:///d" ∧ x.hub.SpeaksOver 0 0 ∧
      x.hub.Synchronizes 0 "file:///d" ∧ x.texts "file:///d" = ⟨"t!"⟩ ∧
      (x.hub.told "file:///d" 0).length = 2) x := by
    decide +kernel
  obtain ⟨hcommitted, hspeaks, hsync, htext, hlength⟩ := hfacts
  obtain ⟨notices, htold, hperiods, hcopy⟩ :=
    told_of_run hfresh (fun _ => ⟨"t"⟩) hevents "file:///d" 0
  refine ⟨hfresh, hevents, ⟨hcommitted, hspeaks, hsync⟩, notices, htold, ?_, hperiods, ?_⟩
  · rw [htold, List.length_map] at hlength
    exact hlength
  · rw [← htext]
    exact hcopy hcommitted hspeaks hsync

end Sitting

end LanguageHub
