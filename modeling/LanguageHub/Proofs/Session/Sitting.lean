import LanguageHub.Hub.Jobs
import LanguageHub.Proofs.Session.Closing
import LanguageHub.Proofs.Session.Committing
import LanguageHub.Proofs.Session.Connecting
import LanguageHub.Proofs.Routine.Company
import LanguageHub.Proofs.Wire.Conversation

/-!
# Calls and jobs of a session

Every call at a session and every job that it leaves behind keeps the pact. So do all of them
together, whichever goes on, whatever is edited and whatever happens beside the session.
-/

namespace LanguageHub

open Routine Pact HubMoment

/-- The call is one at session `s`. If calls take turns a document is connected with the text
that the editor has; only then the document may be disconnected. -/
def Call.Suits (s : Nat) (u : String) (turns : Bool) (text : Buffer) : Call → Prop
  | startSession r | stopSession r | restartSession r => r = s
  | connect r document given => r = s ∧ (document.uri = u → turns = true → given = text.text)
  | disconnect r v => r = s ∧ (v = u → turns = true)
  | commit r _ | save r _ _ => r = s
  | _ => False

variable {s : Nat} {u : String} {a : Actor} {turns : Bool} {content : Buffer}

theorem Call.reaches_program (ha : a.isCall = true) {c : Call} (hc : c.Suits s u turns content) :
    Reaches (fun m : HubMoment s u a => m.scene.Ground u a turns content) c.program
      fun _ m => m.scene.Basis a turns content [] ∧
        (c = .commit s u → m.scene.Committed u turns) := by
  have hother : ∀ {α : Type} {p : Program α} {f : α → Outcome}, (∀ v, c ≠ .commit s v) →
      Reaches (fun m : HubMoment s u a => m.scene.Ground u a turns content) p
        (fun _ m => m.scene.Basis a turns content []) →
      Reaches (fun m : HubMoment s u a => m.scene.Ground u a turns content)
        (p >>= fun b => pure (f b)) fun _ m => m.scene.Basis a turns content [] ∧
          (c = .commit s u → m.scene.Committed u turns) := fun hne hp =>
    hp.bind fun _ => reaches_pure _ fun m hm => ⟨hm, fun heq => absurd heq (hne u)⟩
  cases c with
  | startSession r =>
    obtain rfl : r = s := hc
    exact hother (by simp) ((Session.reaches_start ha).weaken (fun _ _ h => h) fun _ _ h => h.1)
  | stopSession r =>
    obtain rfl : r = s := hc
    exact hother (by simp) (Session.reaches_stop.weaken (fun _ _ h _ => h) fun _ _ h => h ha)
  | restartSession r =>
    obtain rfl : r = s := hc
    exact hother (by simp) (Session.reaches_restart ha)
  | connect r document given =>
    obtain ⟨rfl, htext⟩ := hc
    exact hother (by simp) (Session.reaches_connect ha document given htext)
  | disconnect r v =>
    obtain ⟨rfl, hturns⟩ := hc
    exact hother (by simp) (Session.reaches_disconnect ha v hturns)
  | commit r v =>
    obtain rfl : r = s := hc
    refine Reaches.bind ((Session.reaches_commit ha v).weaken (fun _ _ h => h.toBasis)
      fun _ _ h => h) fun _ => reaches_pure _ fun m hm => ⟨hm.1, fun heq => hm.2 ?_⟩
    exact (Call.commit.inj heq).2
  | save r v text =>
    obtain rfl : r = s := hc
    exact hother (by simp) ((Session.reaches_save ha v text).weaken (fun _ _ h => h.toBasis)
      fun _ _ h => h)
  | _ => exact hc.elim

theorem Session.reaches_stopWhenIdle (ha : a.isCall = false) (attachments : Nat) :
    Reaches (fun _ : HubMoment s u a => True) (stopWhenIdle s attachments) fun _ _ => True := by
  have hneutral : ∀ {α : Type} {p : Program α}, Neutral s u a (fun _ => True) p →
      Reaches (fun _ : HubMoment s u a => True) p fun _ _ => True := fun hp =>
    reaches_of_neutral (fun _ _ _ _ h => h) fun m hm _ => hp m hm trivial
  refine Reaches.bind (hneutral neutral_get) fun h => ?_
  refine Reaches.bind (hneutral (.bind stable_true (neutral_modifyGet fun _ => rfl) fun _ =>
    neutral_waitUntil _)) fun _ => ?_
  refine Reaches.bind (hneutral neutral_get) fun h => ?_
  dsimp only
  split
  · refine Reaches.weaken (P := fun m => m.scene.Known u a false ⟨""⟩) reaches_stop
      (fun _ _ _ hcall => ?_) fun _ _ _ => trivial
    exact absurd (ha.symm.trans hcall) (by simp)
  · exact reaches_pure _ fun _ _ => trivial

theorem Job.reaches_program (ha : a.isCall = false) (job : Job) :
    Reaches (fun m : HubMoment s u a => m.scene.Starts job) job.program
      fun r m => ∀ next, r = some next → m.scene.Starts next := by
  have hstarts : ∀ {α : Type} {p : Program α}, Neutral s u a (fun x => x.Starts job) p →
      Reaches (fun m : HubMoment s u a => m.scene.Starts job) p
        fun _ m => m.scene.Starts job := fun hp =>
    reaches_of_neutral (fun _ _ _ hlater h => h.always hlater.rely.always)
      fun m hm h => hp m hm h
  have hstable : Stable fun x => x.Starts job := fun _ _ hxy h => h.always hxy
  cases job with
  | read c =>
    refine (hstarts (Client.neutral_listen hstable (fun _ h => h))).bind fun goesOn =>
      reaches_pure _ fun m hm next hnext => ?_
    cases goesOn with
    | false => cases hnext
    | true =>
      cases hnext
      exact hm
  | watchConnection r c epoch =>
    by_cases hr : r = s
    · subst hr
      exact (hstarts (Session.neutral_watchConnection hstable c epoch)).bind fun _ =>
        reaches_pure _ fun _ _ _ hnext => by cases hnext
    · exact reaches_of_false fun m _ h => hr h.1
  | stopWhenIdle r attachments =>
    by_cases hr : r = s
    · subst hr
      exact ((Session.reaches_stopWhenIdle ha attachments).weaken (fun _ _ _ => trivial)
        fun _ _ h => h).bind fun _ => reaches_pure _ fun _ _ _ hnext => by cases hnext
    · exact reaches_of_false fun m _ h => hr h
  | watchRegistry cursor => exact reaches_of_false fun m _ h => h
  | call slot c => exact reaches_of_false fun m _ h => h

/-- A job that is a call ends with it. -/
theorem Job.reaches_call (ha : a.isCall = true) (slot : Nat) {c : Call}
    (hc : c.Suits s u turns content) :
    Reaches (fun m : HubMoment s u a => m.scene.Ground u a turns content) (Job.call slot c).program
      fun r m => r = none ∧ m.scene.Basis a turns content [] ∧
        (c = .commit s u → m.scene.Committed u turns) := by
  refine Reaches.bind (c.reaches_program ha hc) fun outcome => ?_
  refine Reaches.bind (reaches_silent (fun _ _ _ h => h ▸ id) fun _ => rfl) fun _ => ?_
  exact reaches_pure _ fun m hm => ⟨rfl, hm⟩

/-! ## The company -/

section Company

variable {isCall : Nat → Bool} {machine : Machine Job Hub} {w w' : World} {place : Nat}
  {t : RunningTask Job Hub}

/-- The tasks at the session, some of which are calls. When calls take turns there is only one. -/
abbrev companyOf (s : Nat) (u : String) (isCall : Nat → Bool) : Company Job Hub where
  World := World
  state := World.hub
  move := World.move s
  state_move _ _ _ := rfl
  allows w h h' := w.alone = false → h.Orderly s u w.text w.phase h'
  inv w := (w.scene s).Inv u
  guarantee id w w' := (w.scene s).Guarantee u ⟨id, isCall id⟩ (w'.scene s)
  rely id w w' := (w.scene s).Rely u ⟨id, isCall id⟩ (w'.scene s)
  starts w job := (w.scene s).Starts job
  agrees w := w.alone = true → ∀ id id', isCall id = true → isCall id' = true → id = id'
  rely_refl _ _ := .refl u _ _
  rely_trans := .trans
  rely_of_guarantee hne hagrees _ _ h := h.rely hne.symm fun halone hcall =>
    Bool.eq_false_iff.mpr fun hcall' => hne (hagrees halone _ _ hcall hcall')

/-- What a task leaves behind when it ends. -/
structure Ends (turns : Bool) (m : HubMoment s u a) (r : Option Job) : Prop where
  sound : m.Sound
  starts : ∀ job, r = some job → a.isCall = false ∧ m.scene.Starts job
  basis : a.isCall = true → ∃ content, m.scene.Basis a turns content []

/-- For a task that is no call it does not matter whether calls take turns. -/
theorem Ends.of_job {m : HubMoment s u a} {r : Option Job} (h : Ends turns m r)
    (ha : a.isCall = false) (turns' : Bool) : Ends turns' m r :=
  ⟨h.sound, h.starts, fun hcall => absurd (ha.symm.trans hcall) (by simp)⟩

theorem waits_ofJob (ha : a.isCall = false) {job : Job} (hjob : (w.scene s).Starts job) :
    job.program.Waits (P := pact s u a) w (Ends turns) := by
  refine waits_of_keeps (fun v => Scene.Rely.refl u _ (v.scene s)) ?_
  intro v hv hrely
  have hstarts : (v.scene s).Starts job := hjob.always hrely.always
  refine (Job.reaches_program ha job _ (sound_resume hv) hstarts).mono ?_
  intro m r h
  refine ⟨h.1, fun next hr => ⟨ha, h.2 next hr⟩, fun hcall => ?_⟩
  exact absurd (ha.symm.trans hcall) (by simp)

theorem waits_ofCall (ha : a.isCall = true) (slot : Nat) {c : Call}
    (hc : c.Suits s u turns content) (hground : (w.scene s).Ground u a turns content) :
    (Job.call slot c).program.Waits w fun (m : HubMoment s u a) r =>
      Ends turns m r ∧ (c = .commit s u → m.scene.Committed u turns) := by
  refine waits_of_keeps (fun v => Scene.Rely.refl u _ (v.scene s)) ?_
  intro v hv hrely
  have hground' : (v.scene s).Ground u a turns content := hground.rely ha hrely hv
  refine (Job.reaches_call ha slot hc _ (sound_resume hv) hground').mono ?_
  intro m r h
  obtain ⟨hsound, rfl, hbasis, hcommitted⟩ := h
  exact ⟨⟨hsound, by simp, fun _ => ⟨_, hbasis⟩⟩, hcommitted⟩

/-- Send locks are asked for by calls, while they are running. -/
def World.IsOwned (isCall : Nat → Bool) (machine : Machine Job Hub) (w : World) : Prop :=
  ∀ k n, n ∈ (w.hub.lock (.send k)).tickets →
    isCall (w.owner (.send k) n) = true ∧ ∃ r ∈ machine.tasks, r.id = w.owner (.send k) n

theorem World.IsOwned.of_lock (h : w.IsOwned isCall machine) (w' : World)
    (hlock : w'.hub.lock = w.hub.lock) (howner : w'.owner = w.owner) {machine' : Machine Job Hub}
    (htasks : machine'.tasks = machine.tasks) : w'.IsOwned isCall machine' := by
  intro k n hn
  rw [hlock] at hn
  rw [howner, htasks]
  exact h k n hn

theorem World.IsOwned.free (h : w.IsOwned isCall machine)
    (hnone : ∀ r ∈ machine.tasks, isCall r.id = false) (k : Nat) :
    (w.hub.lock (.send k)).tickets = [] := by
  rw [List.eq_nil_iff_forall_not_mem]
  intro n hn
  obtain ⟨hcall, r, hr, hid⟩ := h k n hn
  rw [← hid, hnone r hr] at hcall
  cases hcall

theorem World.IsOwned.quiet (h : w.IsOwned isCall machine)
    (hnone : ∀ r ∈ machine.tasks, isCall r.id = false) : (w.scene s).Quiet u := fun k _ =>
  Lock.isFree_of_tickets (h.free hnone k)

variable {goal goal' : ∀ a : Actor, HubMoment s u a → Option Job → Prop}

/-- All tasks keep their pacts, each on its way to its goal. -/
abbrev CrewOf (isCall : Nat → Bool) (goal : ∀ a : Actor, HubMoment s u a → Option Job → Prop)
    (machine : Machine Job Hub) (w : World) : Prop :=
  Company.Crew (companyOf s u isCall) (fun id => goal ⟨id, isCall id⟩) machine w

/-- Which other tasks are calls does not matter, nor how far the goals go that nobody has. -/
theorem crew_recall {isCall' : Nat → Bool} (hcrew : CrewOf isCall goal machine w)
    (hsame : ∀ r ∈ machine.tasks, isCall' r.id = isCall r.id)
    (hgoal : ∀ r ∈ machine.tasks, ∀ m job, goal ⟨r.id, isCall r.id⟩ m job →
      goal' ⟨r.id, isCall r.id⟩ m job) : CrewOf isCall' goal' machine w := by
  refine ⟨hcrew.state, hcrew.inv, hcrew.issued, hcrew.distinct, fun r hr => ?_⟩
  have hwaits : r.rest.Waits w (goal' ⟨r.id, isCall r.id⟩) := (hcrew.waits r hr).mono (hgoal r hr)
  rw [← hsame r hr] at hwaits
  exact hwaits

/-- A call that ends leaves no ticket behind. -/
theorem World.IsOwned.advance (h : w.IsOwned isCall machine) (ht : machine.tasks[place]? = some t)
    (hends : ∀ a m r, goal a m r → Ends turns m r)
    (hadv : Company.Advances (companyOf s u isCall) (fun id => goal ⟨id, isCall id⟩) t machine w
      w') :
    w'.IsOwned isCall (machine.advance Job.program place) := by
  have hguarantee : (w.scene s).Guarantee u ⟨t.id, isCall t.id⟩ (w'.scene s) := hadv.guarantee
  have hstays : ∀ k n, n ∈ (w'.hub.lock (.send k)).tickets → w'.owner (.send k) n = t.id →
      isCall t.id = true → ∃ r ∈ (machine.advance Job.program place).tasks, r.id = t.id := by
    intro k n hn hmine hcall
    apply Machine.exists_mem_advance Job.program ht
    intro hover
    obtain ⟨m', -, rfl, hgoal⟩ := hadv.ended _ hover
    obtain ⟨content, hbasis⟩ := (hends _ _ _ hgoal).basis hcall
    cases hbasis.own k n hn hmine
  intro k n hn
  by_cases hold : n < (w.hub.lock (.send k)).next
  · have howner : w'.owner (.send k) n = w.owner (.send k) n := hguarantee.always.owner _ n hold
    obtain ⟨hcall, r, hr, hid⟩ := h k n (hguarantee.always.gone _ n hold hn)
    rw [← howner] at hcall hid
    refine ⟨hcall, ?_⟩
    by_cases hmine : r.id = t.id
    · rw [← hid, hmine] at hcall ⊢
      exact hstays k n hn (hid.symm.trans hmine) hcall
    · exact ⟨r, Machine.mem_advance ht hr hmine, hid⟩
  · have hissued := ((Scene.Inv.locked hadv.inv).valid (.send k)).issued n hn
    have hmine : w'.owner (.send k) n = t.id :=
      hguarantee.given k n (Nat.le_of_not_lt hold) hissued
    have hcall : isCall t.id = true := by
      by_contra hnot
      have hlock : w'.hub.lock (.send k) = w.hub.lock (.send k) :=
        (hguarantee.still (Bool.eq_false_iff.mpr hnot)).lock k
      rw [← hlock] at hold
      exact hold hissued
    rw [hmine]
    exact ⟨hcall, hstays k n hn hmine hcall⟩

/-- After a leg of any task all keep their pacts. Jobs that are left behind are no calls. -/
theorem crew_advance (hcrew : CrewOf isCall goal machine w)
    (hagrees : (companyOf s u isCall).agrees w) (ht : machine.tasks[place]? = some t)
    (hready : t.rest.isReady machine.state = true)
    (hpasses : t.rest.resumed.Passes ((companyOf s u isCall).allows w) machine.state)
    (hcalls : ∀ id, isCall id = true → id < machine.nextTask)
    (hends : ∀ a m r, goal a m r → Ends turns m r)
    (hgoal : ∀ id m r, isCall id = false → Ends turns m r → goal ⟨id, isCall id⟩ m r) :
    ∃ w', CrewOf isCall goal (machine.advance Job.program place) w' ∧
      Company.Advances (companyOf s u isCall) (fun id => goal ⟨id, isCall id⟩) t machine w w' := by
  obtain ⟨w', hadv⟩ := Company.Crew.advances hcrew (List.mem_of_getElem? ht) hready hpasses
    fun id m r h => (hends ⟨id, isCall id⟩ m r h).sound
  refine ⟨w', Company.Crew.advance hcrew hagrees ht hready hadv ?_ ?_, hadv⟩
  · intro job hjob id hid
    have hnot : isCall id = false :=
      Bool.eq_false_iff.mpr fun hcall => absurd (hcalls id hcall) (Nat.not_lt_of_le hid)
    exact (waits_ofJob hnot hjob).mono fun m r => hgoal id m r hnot
  · intro job hjob
    obtain ⟨m', -, rfl, h⟩ := hadv.ended _ hjob
    obtain ⟨hnot, hstarts⟩ := (hends _ _ _ h).starts job rfl
    exact (waits_ofJob hnot hstarts).mono fun m r => hgoal t.id m r hnot

/-- An edit disturbs nobody, unless calls take turns and one is being made. -/
theorem crew_edit {v : String} {f : Synchronizer → Synchronizer} {text : Buffer}
    {phase : EditPhase} (hcrew : CrewOf isCall goal machine w)
    (hcalls : ∀ id, isCall id = true → w.alone = false)
    (hedits : (w.scene s).Edits u ((w.scene s).placeOf v) f text phase) :
    CrewOf isCall goal (machine.modify (Session.hook s v f)) (w.edit s v f text phase) := by
  have hscene := World.scene_edit s v f text phase w
  have hinv : ((w.edit s v f text phase).scene s).Inv u := by
    rw [hscene]
    exact Scene.Inv.edit hcrew.inv hedits
  have hstate : w.hub = machine.state := hcrew.state
  rw [Machine.modify, ← hstate]
  apply Company.Crew.outside hcrew hinv
  intro id _
  change (w.scene s).Rely u _ (World.scene s _)
  rw [hscene]
  exact Scene.rely_edit (hcalls id) hedits

end Company

/-! ## What happens beside a session -/

/-- All that may change beside a session while its tasks wait: what servers send, how much they
accept, which connections fail, what the next connections come to, the time and the registry. -/
structure Hub.Beside (s : Nat) (h h' : Hub) : Prop where
  outline : h'.outline s = { h.outline s with isDue := (h'.outline s).isDue }
  isDue : ∀ i, (h.outline s).isDue i = true → (h'.outline s).isDue i = true

namespace Hub

variable {h h' : Hub} {w : World}

theorem beside_of_outline (heq : h'.outline s = h.outline s) : Beside s h h' := by
  constructor
  · rw [heq]
  · intro i hi
    rw [heq]
    exact hi

theorem beside_deliver (c : Nat) (id : RequestId) (answer : Response) (h : Hub) :
    Beside s h (h.onClient c (·.deliver id answer)) := by
  have hkeeps : ∀ client : Client, (client.deliver id answer).link = client.link ∧
      (client.deliver id answer).isOpen = client.isOpen := by
    intro client
    unfold Client.deliver
    split <;> exact ⟨rfl, rfl⟩
  apply beside_of_outline
  exact outline_onClient (fun client => (hkeeps client).1) fun client => (hkeeps client).2

theorem Beside.lock (h : Beside s w.hub h') : h'.lock = w.hub.lock :=
  congrArg Outline.lock h.outline

theorem Beside.scene (h : Beside s w.hub h') : World.scene s { w with hub := h' } =
    (w.scene s).fade (w.scene s).state (w.scene s).speaker (w.scene s).isOpen
      (h'.outline s).isDue := by
  rw [World.scene, h.outline]
  rfl

theorem Beside.fades (h : Beside s w.hub h') : (w.scene s).Fades (w.scene s).state
    (w.scene s).speaker (w.scene s).isOpen (h'.outline s).isDue :=
  ⟨.inl rfl, .inl rfl, fun _ hopen => hopen, h.isDue⟩

theorem Beside.inv (h : Beside s w.hub h') (hinv : (w.scene s).Inv u) :
    (World.scene s { w with hub := h' }).Inv u := by
  rw [h.scene]
  apply hinv.fade h.fades
  · exact hinv.filed.empty
  · exact fun hfree => hinv.tidy _ hfree rfl

theorem Beside.rely (h : Beside s w.hub h') :
    (w.scene s).Rely u a (World.scene s { w with hub := h' }) := by
  rw [h.scene]
  exact Scene.rely_fade h.fades (.inl rfl)

theorem Beside.crew {isCall : Nat → Bool} {machine : Machine Job Hub} {change : Hub → Hub}
    {goal : ∀ a : Actor, HubMoment s u a → Option Job → Prop}
    (h : Beside s w.hub (change w.hub)) (hcrew : CrewOf isCall goal machine w) :
    CrewOf isCall goal (machine.modify change) { w with hub := change w.hub } := by
  have hstate : w.hub = machine.state := hcrew.state
  rw [Machine.modify, ← hstate]
  exact Company.Crew.outside hcrew (h.inv hcrew.inv) fun id _ => h.rely

end Hub

end LanguageHub

/-!
# One thing after another

An editor works at one session: it asks for one thing after the other and makes one edit after
the other. Whatever the servers answer and whenever connections are lost, each server hears of a
document in periods, and after a commit it has the text that the editor has.
-/

namespace LanguageHub

open Routine Pact HubMoment

/-! ## Sittings -/

/-- What an editor asks of a session. -/
inductive Errand where
  | start
  | stop
  | restart
  | connect (document : DocumentRef)
  | disconnect (uri : String)
  | commit (uri : String)
  | save (uri text : String)

/-- A document is connected with the text that the editor has. -/
def Errand.call (s : Nat) (texts : String → Buffer) : Errand → Call
  | start => .startSession s
  | stop => .stopSession s
  | restart => .restartSession s
  | connect document => .connect s document (texts document.uri).text
  | disconnect uri => .disconnect s uri
  | commit uri => .commit s uri
  | save uri text => .save s uri text

def Errand.committed? : Errand → Option String
  | commit uri => some uri
  | _ => none

/-- The tasks at a session and the texts in the editor. -/
structure Sitting where
  machine : Machine Job Hub
  texts : String → Buffer
  /-- The edit under way, and its document. -/
  editing : Option (String × EditPhase)
  /-- What was asked last, since the last edit, and the task that does it. -/
  asked : Option (Nat × Errand)

namespace Sitting

def hub (x : Sitting) : Hub := x.machine.state

/-- What was asked last is still being done. -/
def isBusy (x : Sitting) : Bool :=
  x.asked.any fun (id, _) => x.machine.tasks.any (·.id == id)

/-- Nothing is being done for the editor. -/
def isIdle (x : Sitting) : Bool := !x.isBusy && x.editing.isNone

/-- The document that was committed, if nothing was asked and no edit was begun after that. -/
def committed? (x : Sitting) : Option String :=
  if x.isBusy then none else x.asked.bind (·.2.committed?)

/-- What happens next. -/
inductive Event where
  /-- The task at this place goes on, if it can. -/
  | goOn (place : Nat)
  | ask (slot : Nat) (errand : Errand)
  | edit (uri : String) (edit : Edit)
  /-- The edit under way is made, or its document is shown again after it. -/
  | proceed
  | others (change : Hub → Hub)

def step (s : Nat) (x : Sitting) : Event → Sitting
  | .goOn place => { x with machine := x.machine.advance Job.program place }
  | .ask slot errand =>
    if x.isIdle then
      { x with
        machine := x.machine.start Job.program (.call slot (errand.call s x.texts))
        asked := some (x.machine.nextTask, errand) }
    else x
  | .edit uri e =>
    if x.isIdle then
      { x with
        machine := x.machine.modify (Session.beforeChange s uri (x.texts uri) e)
        editing := some (uri, .shown e)
        asked := none }
    else x
  | .proceed =>
    match x.editing with
    | some (uri, .shown e) =>
      { x with
        texts := fun v => if v = uri then (x.texts v).after e else x.texts v
        editing := some (uri, .tried) }
    | some (uri, .tried) =>
      { x with
        machine := x.machine.modify (Session.afterChange s uri (x.texts uri))
        editing := none }
    | _ => x
  | .others change => { x with machine := x.machine.modify change }

def run (s : Nat) (x : Sitting) (events : List Event) : Sitting := events.foldl (step s) x

/-- An editor with these texts, before anything is asked. -/
def start (h : Hub) (texts : String → Buffer) : Sitting := ⟨.ofState h, texts, none, none⟩

end Sitting

def Sitting.Event.IsBeside (s : Nat) : Event → Prop
  | others change => ∀ h, Hub.Beside s h (change h)
  | _ => True

/-- The session is new, and nothing was done in the hub before. -/
structure Hub.IsFresh (s : Nat) (h : Hub) : Prop where
  session : ∃ serverId definition scope roots connection,
    h.sessions[s]? = some (.new serverId definition scope roots connection)
  clients : h.clients = []
  links : h.links = []
  synchronizers : h.synchronizers = []
  locks : h.locks = []

/-- The session is started, and the connection that is this link is open in both directions. -/
structure Hub.SpeaksOver (s i : Nat) (h : Hub) : Prop where
  started : (h.session s).state = .started
  client : ∃ c, (h.session s).running.map (·.client) = some c ∧ (h.client c).isOpen = true ∧
    (h.client c).link = i
  writable : StreamFault.due? (h.link i).writeFault = none

theorem Hub.speaksOver_iff {s i : Nat} {h : Hub} : h.SpeaksOver s i ↔
    (h.session s).state = .started ∧
      (∃ c ∈ (h.session s).running.map (·.client), (h.client c).isOpen = true ∧
        (h.client c).link = i) ∧
      StreamFault.due? (h.link i).writeFault = none :=
  ⟨fun ⟨hstarted, hclient, hwritable⟩ => ⟨hstarted, hclient, hwritable⟩,
    fun ⟨hstarted, hclient, hwritable⟩ => ⟨hstarted, hclient, hwritable⟩⟩

instance (s i : Nat) (h : Hub) : Decidable (h.SpeaksOver s i) :=
  decidable_of_iff' _ Hub.speaksOver_iff

/-- The document is connected and its server takes its changes. -/
def Hub.Synchronizes (s : Nat) (u : String) (h : Hub) : Prop :=
  ∃ k, (h.session s).synchronizer? u = some k ∧
    ((h.synchronizer k).kind = .full ∨ (h.synchronizer k).kind = .incremental)

instance (s : Nat) (u : String) (h : Hub) : Decidable (h.Synchronizes s u) :=
  inferInstanceAs (Decidable (∃ k ∈ (h.session s).synchronizer? u,
    (h.synchronizer k).kind = .full ∨ (h.synchronizer k).kind = .incremental))

/-- What the server behind a link was told of a document. -/
def Hub.told (u : String) (i : Nat) (h : Hub) : List Message :=
  (h.link i).messagesOut.filter (·.isAbout u)

/-! ## The company -/

variable {s : Nat} {u : String} {asked : Option (Nat × Errand)} {id : Nat} {w : World}

/-- The task does what was asked. -/
def isAsked (asked : Option (Nat × Errand)) (id : Nat) : Bool := asked.any (·.1 == id)

theorem isAsked_iff : isAsked asked id = true ↔ ∃ errand, asked = some (id, errand) := by
  rcases asked with _ | ⟨id', errand⟩
  · simp [isAsked]
  · simp [isAsked]

theorem agrees_isAsked : (companyOf s u (isAsked asked)).agrees w := by
  intro _ id id' hid hid'
  obtain ⟨errand, hasked⟩ := isAsked_iff.mp hid
  obtain ⟨errand', hasked'⟩ := isAsked_iff.mp hid'
  have heq := hasked.symm.trans hasked'
  rw [Option.some.injEq, Prod.mk.injEq] at heq
  exact heq.1

theorem suits_call {errand : Errand} {texts : String → Buffer} :
    (errand.call s texts).Suits s u true (texts u) := by
  cases errand with
  | connect document =>
    refine ⟨rfl, fun huri _ => ?_⟩
    rw [huri]
  | disconnect uri => exact ⟨rfl, fun _ => rfl⟩
  | _ => rfl

theorem call_eq_commit {errand : Errand} {texts : String → Buffer} (h : errand = .commit u) :
    errand.call s texts = .commit s u := by
  rw [h]
  rfl

end LanguageHub
