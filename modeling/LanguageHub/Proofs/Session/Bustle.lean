import LanguageHub.Proofs.Session.Sequence

/-!
# All at once

An editor does not wait for one call before it makes the next, and its edits of a document fall
between the steps of calls. As long as the document is only attached with the text that the editor
has, nothing of what is edited is lost, whatever comes between what: once all calls have ended and
the document is committed, its server has the editor's text. An edit that is made while a restart
has the document detached is lost, since the restart attaches it with the text from before.
-/

namespace LanguageHub

open Routine Pact HubMoment Text

/-! ## Bustles -/

/-- The tasks at a session, and a document in the editor. -/
structure Bustle where
  machine : Machine Job Hub
  text : Buffer
  /-- The edit under way. -/
  phase : EditPhase
  /-- The tasks that are calls. -/
  calls : List Nat

namespace Bustle

def hub (x : Bustle) : Hub := x.machine.state

def isCall (x : Bustle) (id : Nat) : Bool := decide (id ∈ x.calls)

/-- All calls have ended, and no edit is under way. -/
def IsCalm (x : Bustle) : Prop := x.phase = .idle ∧ ∀ t ∈ x.machine.tasks, x.isCall t.id = false

instance (x : Bustle) : Decidable x.IsCalm := inferInstanceAs (Decidable (_ ∧ _))

/-- What happens next. -/
inductive Event where
  /-- The task at this place goes on, if it can. -/
  | goOn (place : Nat)
  | call (slot : Nat) (call : Call)
  | edit (edit : Edit)
  /-- The edit under way is made, or the document is shown again after it. -/
  | proceed
  | others (change : Hub → Hub)

/-- In a bustle around document `u`. -/
def step (s : Nat) (u : String) (x : Bustle) : Event → Bustle
  | .goOn place => { x with machine := x.machine.advance Job.program place }
  | .call slot c =>
    { x with
      machine := x.machine.start Job.program (.call slot c)
      calls := x.machine.nextTask :: x.calls }
  | .edit e =>
    match x.phase with
    | .idle =>
      { x with
        machine := x.machine.modify (Session.beforeChange s u x.text e)
        phase := .shown e }
    | _ => x
  | .proceed =>
    match x.phase with
    | .idle => x
    | .shown e => { x with text := x.text.after e, phase := .tried }
    | .tried =>
      { x with
        machine := x.machine.modify (Session.afterChange s u x.text)
        phase := .idle }
  | .others change => { x with machine := x.machine.modify change }

def run (s : Nat) (u : String) (x : Bustle) (events : List Event) : Bustle :=
  events.foldl (step s u) x

/-- A document in the editor, before anything is asked. -/
def start (h : Hub) (text : Buffer) : Bustle := ⟨.ofState h, text, .idle, []⟩

/-- Calls are made at this session, and none of them disconnects the document. -/
def Event.IsAround (s : Nat) (u : String) : Event → Prop
  | call _ c => ∀ text, c.Suits s u false text
  | others change => ∀ h, Hub.Beside s h (change h)
  | _ => True

section IsAround

variable {s : Nat} {u : String}

@[simp] theorem isAround_goOn (place : Nat) : (Event.goOn place).IsAround s u := trivial

@[simp] theorem isAround_call {slot : Nat} {c : Call} :
    (Event.call slot c).IsAround s u ↔ ∀ text, c.Suits s u false text := Iff.rfl

@[simp] theorem isAround_edit (e : Edit) : (Event.edit e).IsAround s u := trivial

@[simp] theorem isAround_proceed : Event.proceed.IsAround s u := trivial

end IsAround

/-- A task that goes on attaches the document with the editor's text only, and texts are so short
that all lines and columns are words of 32 bits. -/
def Event.IsOrderly (s : Nat) (u : String) (x : Bustle) : Event → Prop
  | goOn place => ∀ t ∈ x.machine.tasks[place]?, t.rest.isReady x.hub = true →
      t.rest.resumed.Passes (Hub.Orderly s u x.text x.phase) x.hub
  | edit _ => unitCount x.text.text.toList < UInt32.size
  | _ => True

def IsOrderly (s : Nat) (u : String) (x : Bustle) : List Event → Prop
  | [] => True
  | event :: rest => event.IsOrderly s u x ∧ (step s u x event).IsOrderly s u rest

instance (s : Nat) (u : String) (x : Bustle) (event : Event) :
    Decidable (event.IsOrderly s u x) :=
  match event with
  | .goOn place => inferInstanceAs (Decidable (∀ t ∈ x.machine.tasks[place]?, _ → _))
  | .edit _ => inferInstanceAs (Decidable (_ < _))
  | .call .. | .proceed | .others _ => .isTrue trivial

instance decidableIsOrderly (s : Nat) (u : String) :
    ∀ (x : Bustle) (events : List Event), Decidable (x.IsOrderly s u events)
  | _, [] => .isTrue trivial
  | x, event :: rest =>
    letI := decidableIsOrderly s u (step s u x event) rest
    inferInstanceAs (Decidable (_ ∧ _))

/-! ## The crew -/

variable {s : Nat} {u : String} {x : Bustle} {w : World}

structure Kept (s : Nat) (u : String) (x : Bustle) (w : World) : Prop where
  crew : CrewOf (s := s) (u := u) x.isCall (fun _ => Ends false) x.machine w
  owned : w.IsOwned x.isCall x.machine
  alone : w.alone = false
  text : w.text = x.text
  phase : w.phase = x.phase
  issued : ∀ id, x.isCall id = true → id < x.machine.nextTask

theorem kept_start {h : Hub} (hfresh : h.IsFresh s) (text : Buffer) (u : String) :
    Kept s u (start h text) ⟨h, text, .idle, false, fun _ _ => 0, fun _ => False⟩ := by
  constructor
  case crew => exact ⟨rfl, Sitting.inv_ofFresh hfresh _ _, by simp [start, Machine.ofState], .nil,
      by simp [start, Machine.ofState]⟩
  case owned =>
    intro k t ht
    simp [Hub.lock, hfresh.locks, Lock.free, Lock.tickets] at ht
  case alone => rfl
  case text => rfl
  case phase => rfl
  case issued => simp [isCall, start]

/-- A call knows nothing of the document when it begins, but has no ticket yet. -/
theorem Kept.call (h : Kept s u x w) (slot : Nat) {c : Call}
    (hc : ∀ text, c.Suits s u false text) : Kept s u (step s u x (.call slot c)) w := by
  have hnew : ∀ t ∈ x.machine.tasks, t.id ≠ x.machine.nextTask := fun t ht =>
    Nat.ne_of_lt (h.crew.issued t ht)
  have hsame : ∀ id, id ≠ x.machine.nextTask →
      (step s u x (.call slot c)).isCall id = x.isCall id := fun id hne => by
    simp [isCall, step, hne]
  have hcrew : CrewOf (s := s) (u := u) (step s u x (.call slot c)).isCall (fun _ => Ends false)
      x.machine w :=
    crew_recall h.crew (fun t ht => hsame t.id (hnew t ht)) fun _ _ _ _ hends => hends
  have hcall : (step s u x (.call slot c)).isCall x.machine.nextTask = true := by
    simp [isCall, step]
  have hground : (w.scene s).Ground u
      ⟨x.machine.nextTask, (step s u x (.call slot c)).isCall x.machine.nextTask⟩ false x.text := by
    refine ⟨⟨h.alone, ?_, nofun, nofun⟩, nofun⟩
    -- Whoever has a ticket is running, and this task is not yet.
    intro k n hn hown
    obtain ⟨-, t, ht, hid⟩ := h.owned k n hn
    exact absurd (hid.trans hown) (hnew t ht)
  constructor
  case crew =>
    have hwaits := waits_ofCall hcall slot (hc _) hground
    exact Company.Crew.start hcrew (hwaits.mono fun _ _ => And.left)
  case owned =>
    intro k n hn
    obtain ⟨hcall, t, ht, hid⟩ := h.owned k n hn
    refine ⟨?_, t, List.mem_append_left _ ht, hid⟩
    rw [hsame _ (hid ▸ hnew t ht)]
    exact hcall
  case alone => exact h.alone
  case text => exact h.text
  case phase => exact h.phase
  case issued =>
    intro id hid
    by_cases hlast : id = x.machine.nextTask
    · rw [hlast]
      exact Nat.lt_succ_self _
    · rw [hsame id hlast] at hid
      exact Nat.lt_succ_of_lt (h.issued id hid)

/-! ## Edits -/

/-- A step of an edit, whoever else is about to speak of the document. -/
theorem Kept.shown (h : Kept s u x w) {f : Synchronizer → Synchronizer} {text : Buffer}
    {phase : EditPhase} (hleads : Synchronizer.Leads f x.text x.phase text phase)
    (hsettles : Synchronizer.Settles f x.text x.phase text phase) :
    Kept s u ⟨x.machine.modify (Session.hook s u f), text, phase, x.calls⟩
      (w.edit s u f text phase) := by
  rw [← h.text, ← h.phase] at hleads hsettles
  constructor
  case crew =>
    exact crew_edit h.crew (fun _ _ => h.alone)
      (Scene.edits_own h.crew.inv hleads fun _ => hsettles)
  case owned => exact h.owned.of_lock (w.edit s u f text phase) Session.lock_hook rfl rfl
  case alone => exact h.alone
  case text => rfl
  case phase => rfl
  case issued => exact h.issued

theorem Kept.edit (h : Kept s u x w) {e : Edit}
    (hshort : unitCount x.text.text.toList < UInt32.size) :
    ∃ w', Kept s u (step s u x (.edit e)) w' := by
  unfold step
  dsimp only
  split
  · rename_i hphase
    have hleads := Synchronizer.leads_beforeChange x.text e
    have hsettles := Synchronizer.settles_beforeChange (Edit.isShortIn_of_unitCount_lt hshort e)
    rw [← hphase] at hleads hsettles
    exact ⟨_, h.shown hleads hsettles⟩
  · exact ⟨w, h⟩

theorem Kept.proceed (h : Kept s u x w) : ∃ w', Kept s u (step s u x .proceed) w' := by
  unfold step
  dsimp only
  split
  · exact ⟨w, h⟩
  · rename_i e hphase
    have hleads := Synchronizer.leads_after x.text e
    have hsettles := Synchronizer.settles_after x.text e
    rw [← hphase] at hleads hsettles
    have hshown := h.shown hleads hsettles
    -- The session learns nothing when the buffer changes.
    rw [Machine.modify, Session.hook_id] at hshown
    exact ⟨_, hshown⟩
  · rename_i hphase
    have hleads := Synchronizer.leads_afterChange x.text
    have hsettles := Synchronizer.settles_afterChange x.text
    rw [← hphase] at hleads hsettles
    exact ⟨_, h.shown hleads hsettles⟩

/-! ## Going on -/

theorem Kept.others (h : Kept s u x w) {change : Hub → Hub}
    (hbeside : Hub.Beside s w.hub (change w.hub)) :
    Kept s u (step s u x (.others change)) { w with hub := change w.hub } := by
  constructor
  case crew => exact hbeside.crew h.crew
  case owned => exact h.owned.of_lock { w with hub := change w.hub } hbeside.lock rfl rfl
  case alone => exact h.alone
  case text => exact h.text
  case phase => exact h.phase
  case issued => exact h.issued

theorem Kept.goOn (h : Kept s u x w) {place : Nat}
    (horderly : (Event.goOn place).IsOrderly s u x) :
    ∃ w', Kept s u (step s u x (.goOn place)) w' := by
  cases ht : x.machine.tasks[place]? with
  | none =>
    refine ⟨w, ?_⟩
    rw [step, Machine.advance_of_none ht]
    exact h
  | some t =>
    by_cases hready : t.rest.isReady x.machine.state = true
    · have hpasses : t.rest.resumed.Passes ((companyOf s u x.isCall).allows w) x.machine.state := by
        have hpasses := horderly t ht hready
        rw [← h.text, ← h.phase] at hpasses
        exact hpasses.mono fun _ _ horderly _ => horderly
      have hagrees : (companyOf s u x.isCall).agrees w := fun halone =>
        absurd (h.alone.symm.trans halone) (by simp)
      obtain ⟨w', hcrew, hadv⟩ := crew_advance h.crew hagrees ht hready hpasses h.issued
        (fun _ _ _ hends => hends) fun _ _ _ _ hends => hends
      have hguarantee : (w.scene s).Guarantee u ⟨t.id, x.isCall t.id⟩ (w'.scene s) :=
        hadv.guarantee
      refine ⟨w', ?_⟩
      constructor
      case crew => exact hcrew
      case owned => exact h.owned.advance ht (fun _ _ _ hends => hends) hadv
      case alone => exact hguarantee.alone.trans h.alone
      case text => exact hguarantee.text.trans h.text
      case phase => exact hguarantee.phase.trans h.phase
      case issued => exact fun id hid => Machine.nextTask_advance place (h.issued id hid)
    · refine ⟨w, ?_⟩
      rw [step, Machine.advance_of_not_ready ht hready]
      exact h

theorem Kept.step (h : Kept s u x w) {event : Event} (haround : event.IsAround s u)
    (horderly : event.IsOrderly s u x) : ∃ w', Kept s u (Bustle.step s u x event) w' := by
  cases event with
  | goOn place => exact h.goOn horderly
  | call slot c => exact ⟨w, h.call slot haround⟩
  | edit e => exact h.edit horderly
  | proceed => exact h.proceed
  | others change => exact ⟨_, h.others (haround w.hub)⟩

theorem Kept.run (h : Kept s u x w) {events : List Event}
    (haround : ∀ event ∈ events, event.IsAround s u) (horderly : x.IsOrderly s u events) :
    ∃ w', Kept s u (Bustle.run s u x events) w' := by
  induction events generalizing x w with
  | nil => exact ⟨w, h⟩
  | cons event rest ih =>
    rw [List.forall_mem_cons] at haround
    obtain ⟨w', hnext⟩ := h.step haround.1 horderly.1
    exact ih hnext haround.2 horderly.2

end Bustle

/-! ## When all calls have ended -/

namespace Scene

variable {u : String} {a : Actor} {x : Scene}

/-- From now on calls take turns. -/
def takeTurns (x : Scene) : Scene := { x with alone := true }

theorem Mirrors.takeTurns {k : Nat} {copy : Option Buffer} (h : x.Mirrors k copy) :
    x.takeTurns.Mirrors k copy := by
  intro hkind
  obtain ⟨b, hcopy, htracks, -⟩ := h hkind
  exact ⟨b, hcopy, htracks, nofun⟩

theorem Inv.takeTurns (h : x.Inv u) : x.takeTurns.Inv u := by
  constructor
  case known => exact h.known
  case wired =>
    exact ⟨h.wired.1, h.wired.2, h.wired.3, h.wired.4, h.wired.5, h.wired.6, h.wired.7⟩
  case filed => exact ⟨h.filed.1, h.filed.2, h.filed.3⟩
  case locked => exact ⟨h.locked.1, h.locked.2, h.locked.3, h.locked.4, nofun⟩
  case tidy =>
    intro n hfree
    have htidy : x.Tidy u n := h.tidy n hfree
    cases n with
    | lifecycle s => exact htidy
    | provider s => trivial
    | writer c => trivial
    | send k =>
      intro hk i hi hattached
      obtain ⟨copy, hconversation, hmirrors⟩ := htidy hk i hi hattached
      exact ⟨copy, hconversation, hmirrors.takeTurns⟩
  case closed => exact h.closed
  case recalled => exact h.recalled

/-- Nobody but a call relies on whether calls take turns. -/
theorem rely_takeTurns (ha : a.isCall = false) : x.Rely u a x.takeTurns := by
  constructor
  case always => exact ⟨rfl, Nat.le_refl _, fun _ _ => rfl, fun _ => id, Nat.le_refl _,
      fun _ => id, Nat.le_refl _, fun _ _ => ⟨rfl, rfl⟩, fun _ => id, fun _ => Nat.le_refl _,
      fun _ _ _ => rfl, fun _ _ _ => id⟩
  case tickets =>
    intro n t _ _
    refine ⟨fun hheld => ⟨hheld, ?_⟩, fun hne heq => absurd heq hne⟩
    cases n with
    | lifecycle s => exact fun _ => ⟨.inl rfl, rfl, .inl rfl, fun _ => id, .inl rfl, fun _ => id⟩
    | provider s => trivial
    | writer c => exact fun _ => rfl
    | send k =>
      exact fun hk => ⟨hk, fun _ => rfl, rfl, fun _ hi => ⟨hi, id⟩,
        fun hattached => ⟨hattached, fun _ hcopy => hcopy.takeTurns⟩⟩
  case given =>
    intro k t ht ht'
    exact absurd (Nat.lt_of_le_of_lt ht ht') (Nat.lt_irrefl _)
  case still => exact fun hcall => absurd (ha.symm.trans hcall) (by simp)
  case alone => exact fun hcall => absurd (ha.symm.trans hcall) (by simp)

end Scene

namespace Bustle

variable {s : Nat} {u : String} {x : Bustle} {w : World}

/-- From now on the editor waits for one thing before it goes on to the next. -/
def settle (x : Bustle) (u : String) (texts : String → Buffer) : Sitting :=
  ⟨x.machine, fun v => if v = u then x.text else texts v, none, none⟩

theorem Kept.settle (h : Kept s u x w) (hcalm : x.IsCalm) (texts : String → Buffer) :
    Sitting.Kept s u (x.settle u texts) { w with alone := true } := by
  have hinv : (w.scene s).Inv u := h.crew.inv
  -- The tasks that are left are jobs, which are called none in the sitting too.
  have hcrew : CrewOf (s := s) (u := u) (isAsked none) (Sitting.Done none) x.machine w := by
    apply crew_recall h.crew
    · intro t ht
      exact (hcalm.2 t ht).symm
    · intro t ht m r hends
      exact ⟨hends.of_job (hcalm.2 t ht) true, nofun⟩
  constructor
  case crew =>
    have hstate : w.hub = x.machine.state := h.crew.state
    have hinv' : (companyOf s u (isAsked none)).inv { w with alone := true } := hinv.takeTurns
    have hnext := Company.Crew.outside hcrew hinv' fun id _ => Scene.rely_takeTurns rfl
    rw [show (companyOf s u (isAsked none)).state { w with alone := true } = x.machine.state from
      hstate] at hnext
    exact hnext
  case owned =>
    intro k n hn
    rw [show (World.hub { w with alone := true }).lock = w.hub.lock from rfl,
      h.owned.free hcalm.2 k] at hn
    cases hn
  case alone => rfl
  case text =>
    refine h.text.trans ?_
    exact (if_pos rfl).symm
  case phase => exact h.phase.trans hcalm.1
  case issued => exact nofun
  case apart => exact nofun
  case committed => exact nofun

/-- No edit is lost among calls that overlap, if the document is only attached with the text that
the editor has: once they have ended, what its server was told gives the editor's text whenever
the document was committed. -/
theorem told_after_run {h : Hub} (hfresh : h.IsFresh s) (text : Buffer) {events : List Event}
    (haround : ∀ event ∈ events, event.IsAround s u)
    (horderly : (start h text).IsOrderly s u events)
    (hcalm : (run s u (start h text) events).IsCalm) (texts : String → Buffer)
    {later : List Sitting.Event} (hlater : ∀ event ∈ later, event.IsBeside s) (i : Nat) :
    let y := Sitting.run s ((run s u (start h text) events).settle u texts) later
    ∃ notices : List DocumentNotice,
      y.hub.told u i = notices.map (·.message) ∧ DocumentNotice.InPeriods u notices ∧
      (y.committed? = some u → y.hub.SpeaksOver s i → y.hub.Synchronizes s u →
        notices.foldl DocumentNotice.copied none = some (y.texts u)) := by
  intro y
  obtain ⟨w, hkept⟩ := (kept_start hfresh text u).run haround horderly
  obtain ⟨w', hsettled⟩ := (hkept.settle hcalm texts).run hlater
  exact hsettled.told i

/-! ## Two restarts -/

/-- A session that is new, whose server comes up each time. -/
def newHub : Hub :=
  { Hub.new .empty [] ⟨⟨1000⟩, ⟨1000⟩, ⟨0⟩, .notification⟩ with
    sessions := [.new "a" 0 .application [] .factory], launches := [("a", [.opened none none])] }

theorem isFresh_newHub : newHub.IsFresh 0 := ⟨⟨_, _, _, _, _, rfl⟩, rfl, rfl, rfl, rfl⟩

/-- A request is answered; the server takes changes one by one. -/
def answered (c n : Nat) : Event :=
  .others (Hub.onClient c (·.deliver (.number n) ⟨"2.0", some (.number n),
    some (.mkObj [("capabilities", .mkObj [("textDocumentSync", .ofNat 2)])]), none⟩))

theorem isAround_answered (c n : Nat) : (answered c n).IsAround s u := fun h =>
  Hub.beside_deliver c (.number n) _ h

/-- The text that comes with a message about a document. -/
def textOf? : Message → Option String
  | .notification n => (n.params.get? "textDocument").bind (·.textAt? "text")
  | _ => none

theorem copied_of_textOf {n : DocumentNotice} {text : String} (h : textOf? n.message = some text)
    (copy : Option Buffer) : n.copied copy = some ⟨text⟩ := by
  cases n with
  | opened uri languageId version text' =>
    have hsame : textOf? (DocumentNotice.opened uri languageId version text').message =
        some text' := rfl
    obtain rfl := Option.some.inj (hsame.symm.trans h)
    rfl
  | changed uri version changes =>
    have hnone : textOf? (DocumentNotice.changed uri version changes).message = none := rfl
    cases hnone.symm.trans h
  | saved uri text' =>
    have hnone : textOf? (DocumentNotice.saved uri text').message = none := by
      cases text' <;> rfl
    cases hnone.symm.trans h
  | closed uri =>
    have hnone : textOf? (DocumentNotice.closed uri).message = none := rfl
    cases hnone.symm.trans h

/-- A document is connected, which starts the session. -/
def connected : List Event :=
  .call 0 (.connect 0 ⟨"file:///d", "/d", ⟨"x", []⟩⟩ "t") ::
    ([0, 0, 0, 0, 0, 0, 0, 1].map .goOn ++ answered 0 1 :: [1, 1, 1, 1, 2].map .goOn)

/-- The editor edits the document while it is committed and the session restarted, and again when
the document was just attached. -/
def editedAround : List Event :=
  connected ++ [.call 1 (.commit 0 "file:///d"), .edit ⟨1, 0, "!"⟩, .goOn 2,
    .call 2 (.restartSession 0), .proceed, .proceed] ++ (List.replicate 8 2).map .goOn ++
    answered 0 2 :: ([2, 2, 2, 0, 0, 0, 0, 0, 0, 0, 0, 1].map .goOn ++
      [.call 3 (.commit 0 "file:///d"), .goOn 2, answered 1 1]) ++
    [1, 1, 1, 1].map .goOn ++ [.edit ⟨2, 0, "?"⟩, .goOn 2, .proceed, .proceed]

theorem told_after_run_editedAround :
    let x := run 0 "file:///d" (start newHub ⟨"t"⟩) editedAround
    let later : List Sitting.Event :=
      .ask 4 (.commit "file:///d") :: (List.replicate 4 2).map .goOn
    let y := Sitting.run 0 (x.settle "file:///d" fun _ => ⟨""⟩) later
    newHub.IsFresh 0 ∧ (∀ event ∈ editedAround, event.IsAround 0 "file:///d") ∧
      (start newHub ⟨"t"⟩).IsOrderly 0 "file:///d" editedAround ∧ x.IsCalm ∧
      (∀ event ∈ later, event.IsBeside 0) ∧
      (y.committed? = some "file:///d" ∧ y.hub.SpeaksOver 0 1 ∧
        y.hub.Synchronizes 0 "file:///d") ∧
      ∃ notices : List DocumentNotice,
        y.hub.told "file:///d" 1 = notices.map (·.message) ∧ notices.length = 2 ∧
        DocumentNotice.InPeriods "file:///d" notices ∧
        notices.foldl DocumentNotice.copied none = some ⟨"t!?"⟩ := by
  intro x later y
  have haround : ∀ event ∈ editedAround, event.IsAround 0 "file:///d" := by
    simp [editedAround, connected, or_imp, forall_and, isAround_answered, Call.Suits]
  have hlater : ∀ event ∈ later, event.IsBeside 0 := by
    simp [later, Sitting.Event.IsBeside]
  have hfacts : (start newHub ⟨"t"⟩).IsOrderly 0 "file:///d" editedAround ∧
      (fun x : Bustle => x.IsCalm ∧
        (fun y : Sitting => y.committed? = some "file:///d" ∧ y.hub.SpeaksOver 0 1 ∧
          y.hub.Synchronizes 0 "file:///d" ∧ y.texts "file:///d" = ⟨"t!?"⟩ ∧
          (y.hub.told "file:///d" 1).length = 2)
        (Sitting.run 0 (x.settle "file:///d" fun _ => ⟨""⟩) later)) x := by
    decide +kernel
  obtain ⟨horderly, hcalm, hcommitted, hspeaks, hsync, htext, hlength⟩ := hfacts
  obtain ⟨notices, htold, hperiods, hcopy⟩ := told_after_run isFresh_newHub ⟨"t"⟩ haround horderly
    hcalm (fun _ => ⟨""⟩) hlater 1
  refine ⟨isFresh_newHub, haround, horderly, hcalm, hlater, ⟨hcommitted, hspeaks, hsync⟩,
    notices, htold, ?_, hperiods, ?_⟩
  · rw [htold, List.length_map] at hlength
    exact hlength
  · rw [← htext]
    exact hcopy hcommitted hspeaks hsync

/-- It edits the document while the session is being restarted. -/
def editedBetween : List Event :=
  connected ++ .call 2 (.restartSession 0) :: (List.replicate 5 2).map .goOn ++
    [.edit ⟨1, 0, "!"⟩, .proceed, .proceed, answered 0 2] ++
    [2, 2, 2, 0, 0, 0, 0, 0, 0, 0, 0, 1].map .goOn ++ answered 1 1 :: [1, 1, 1, 1, 2].map .goOn

/-- All calls end, and the document is committed once more; but the new server never hears of that
edit. -/
theorem edit_lost_while_restarting :
    let x := run 0 "file:///d" (start newHub ⟨"t"⟩) editedBetween
    let later : List Sitting.Event :=
      .ask 3 (.commit "file:///d") :: (List.replicate 2 2).map .goOn
    let y := Sitting.run 0 (x.settle "file:///d" fun _ => ⟨""⟩) later
    (∀ event ∈ editedBetween, event.IsAround 0 "file:///d") ∧ x.IsCalm ∧
      (y.committed? = some "file:///d" ∧ y.hub.SpeaksOver 0 1 ∧
        y.hub.Synchronizes 0 "file:///d") ∧
      y.texts "file:///d" = ⟨"t!"⟩ ∧
      ∀ notices : List DocumentNotice, y.hub.told "file:///d" 1 = notices.map (·.message) →
        notices.foldl DocumentNotice.copied none = some ⟨"t"⟩ := by
  intro x later y
  have haround : ∀ event ∈ editedBetween, event.IsAround 0 "file:///d" := by
    simp [editedBetween, connected, or_imp, forall_and, isAround_answered, Call.Suits]
  have hfacts : (fun x : Bustle => x.IsCalm ∧
      (fun y : Sitting => y.committed? = some "file:///d" ∧ y.hub.SpeaksOver 0 1 ∧
        y.hub.Synchronizes 0 "file:///d" ∧ y.texts "file:///d" = ⟨"t!"⟩ ∧
        (y.hub.told "file:///d" 1).map textOf? = [some "t"])
      (Sitting.run 0 (x.settle "file:///d" fun _ => ⟨""⟩) later)) x := by
    decide +kernel
  obtain ⟨hcalm, hcommitted, hspeaks, hsync, htext, htold⟩ := hfacts
  refine ⟨haround, hcalm, ⟨hcommitted, hspeaks, hsync⟩, htext, fun notices hnotices => ?_⟩
  rw [hnotices, List.map_map] at htold
  obtain ⟨n, rest, rfl, hn, hrest⟩ := List.map_eq_cons_iff.mp htold
  obtain rfl := List.map_eq_nil_iff.mp hrest
  exact copied_of_textOf hn none

end Bustle

end LanguageHub
