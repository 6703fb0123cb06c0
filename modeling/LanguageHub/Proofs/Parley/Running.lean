import LanguageHub.Proofs.Parley.Calls
import LanguageHub.Proofs.Hub.Copies

/-!
# What a server is told in the end

Any number of calls open a document at a session that runs, commit it and save it, at the same
time and in whatever order they take turns, while edits are shown at any time. The server hears
of the opening first and then of one change after the other, and what it hears, what is on its
way and what is still collected are together what was recorded.
-/

namespace LanguageHub.Parley

open Routine Pact
open DocumentNotice (Tells)

/-! ## Courses -/

/-- The tasks at a site, and the hooks that found the document connected. -/
structure Course where
  machine : Machine Job Hub
  hooks : List Hook

inductive Event where
  /-- The task at this place goes on, if it can. -/
  | goOn (place : Nat)
  | call (slot : Nat) (call : Call)
  /-- The document is shown around an edit. -/
  | hook (hook : Hook)
  | others (change : Hub → Hub)

/-- The calls are about the document, and the others leave it and the session alone. -/
def Event.IsAt (p : Site) : Event → Prop
  | call _ c => c.IsAbout p
  | others change => ∀ h, p.Quiet h (change h)
  | _ => True

namespace Course

def hub (x : Course) : Hub := x.machine.state

def shown (p : Site) (h : Hub) : Hook → Hub
  | .before b e => Session.beforeChange p.session p.uri b e h
  | .after b => Session.afterChange p.session p.uri b h

def step (p : Site) (x : Course) : Event → Course
  | .goOn place => { x with machine := x.machine.advance Job.program place }
  | .call slot c => { x with machine := x.machine.start Job.program (.call slot c) }
  | .hook hook =>
    { machine := x.machine.modify (shown p · hook)
      hooks := if (p.attached x.hub).isSome then x.hooks ++ [hook] else x.hooks }
  | .others change => { x with machine := x.machine.modify change }

def run (p : Site) (x : Course) (events : List Event) : Course := events.foldl (step p) x

def start (h : Hub) : Course := ⟨.ofState h, []⟩

end Course

/-- The session runs, nobody is about to say anything, and the document is not connected. -/
structure IsFresh (p : Site) (h : Hub) : Prop where
  works : p.Works h
  idle : ∀ n, (h.lock n).tickets = []
  apart : p.attached h = none
  unheard : p.heard h = []

/-- The server was told what these commits took, and what another one took is on its way. -/
structure Account (p : Site) (x : Course) (said late : List (List TextChange)) : Prop where
  told : p.heard x.hub = [] ∧ said = [] ∧ late = [] ∨ Tells p.uri said (p.heard x.hub)
  single : late.length ≤ 1
  /-- When all calls are over the server was told of everything. -/
  settled : x.machine.tasks = [] →
    late = [] ∧ (p.attached x.hub ≠ none → Tells p.uri said (p.heard x.hub))
  connected : ∀ k, p.attached x.hub = some k →
    (x.hub.synchronizer k).Collects x.hooks (said ++ late)
  apart : p.attached x.hub = none → p.heard x.hub = [] ∧ x.hooks = []

/-! ## The crew -/

variable {p : Site} {me : Nat} {x : Course} {w w' : World}

/-- A task ends with none of its tickets in use. -/
def goal (p : Site) (me : Nat) (m : Moment (pact p me)) (r : Option Job) : Prop :=
  m.Sound ∧ r = none ∧ World.Clear m.now me

structure Crew (p : Site) (x : Course) (w : World) : Prop where
  tasks : Company.Crew (company p) (goal p) x.machine w
  hooks : w.hooks = x.hooks
  /-- The tickets in send locks are those of tasks that have not ended. -/
  owners : ∀ k t, t ∈ (w.hub.lock (.send k)).tickets →
    ∃ task ∈ x.machine.tasks, task.id = w.owner (.send k) t

theorem waits_call {slot : Nat} {c : Call} (hc : c.IsAbout p) (hclear : w.Clear me) :
    (Job.program (.call slot c)).Waits (P := pact p me) w (goal p me) :=
  (reaches_background slot hc).waits (fun v => .refl v)
    (fun v hv hrely => ⟨sound_resume hv, lasting_ownsOnly.enduring w v hv hrely hclear⟩)
    fun _ _ hm hend => ⟨hm, hend⟩

namespace Crew

theorem inv (hcrew : Crew p x w) : w.Inv p := hcrew.tasks.inv

theorem hub (hcrew : Crew p x w) : w.hub = x.hub := hcrew.tasks.state

theorem clear_nextTask (hcrew : Crew p x w) : w.Clear x.machine.nextTask := by
  intro k t hmem howner
  obtain ⟨task, htask, hid⟩ := hcrew.owners k t hmem
  exact Nat.lt_irrefl _ (howner ▸ hid ▸ hcrew.tasks.issued task htask)

theorem call (hcrew : Crew p x w) {slot : Nat} {c : Call} (hc : c.IsAbout p) :
    Crew p (x.step p (.call slot c)) w where
  tasks := hcrew.tasks.start (waits_call hc hcrew.clear_nextTask)
  hooks := hcrew.hooks
  owners k t hmem := by
    obtain ⟨task, htask, hid⟩ := hcrew.owners k t hmem
    exact ⟨task, List.mem_append_left _ htask, hid⟩

theorem outside (hcrew : Crew p x w) (hinv : w'.Inv p) (hrely : ∀ id, Rely p id w w')
    (hlock : ∀ n, w'.hub.lock n = w.hub.lock n) (howner : w'.owner = w.owner) :
    Crew p ⟨{ x.machine with state := w'.hub }, w'.hooks⟩ w' where
  tasks := hcrew.tasks.outside hinv fun id _ => hrely id
  hooks := rfl
  owners k t hmem := by
    rw [hlock] at hmem
    rw [howner]
    exact hcrew.owners k t hmem

theorem others (hcrew : Crew p x w) {change : Hub → Hub}
    (hquiet : ∀ h, p.Quiet h (change h)) :
    ∃ w', Crew p (x.step p (.others change)) w' := by
  refine ⟨w.move p 0 (change w.hub), ?_⟩
  change Crew p ⟨{ x.machine with state := change x.hub }, x.hooks⟩ _
  rw [← hcrew.hub, ← hcrew.hooks]
  have hacts : Acts p 0 w (change w.hub) := acts_of_quiet (hquiet w.hub) hcrew.inv
  exact hcrew.outside (hacts.inv hcrew.inv)
    (fun _ => binds_of_quiet (hquiet w.hub)) (hquiet w.hub).lock
    (owner_move (hquiet w.hub).lock)

end Crew

/-! ## Hooks -/

theorem shown_eq (p : Site) (h : Hub) (hook : Hook) :
    Course.shown p h hook = Session.hook p.session p.uri (fun s => hook.shownTo s) h := by
  cases hook <;> rfl

theorem shownTo_eq (s : Synchronizer) (hook : Hook) :
    (hook.shownTo s).uri = s.uri ∧ (hook.shownTo s).version = s.version := by
  cases hook with
  | before b e =>
    rw [Hook.shownTo, Synchronizer.beforeChange]
    split <;> exact ⟨rfl, rfl⟩
  | after b => exact ⟨rfl, rfl⟩

/-- The world once the document was shown around an edit. -/
def World.show (k : Nat) (hook : Hook) (w : World) : World :=
  { w with
    hub := w.hub.onSynchronizer k fun s => hook.shownTo s
    hooks := w.hooks ++ [hook] }

theorem inv_show (hw : w.Inv p) {k : Nat} (hk : p.attached w.hub = some k) (hook : Hook) :
    (w.show k hook).Inv p where
  works := ⟨hw.works.known, hw.works.started, hw.works.speaker, hw.works.isOpen, hw.works.link,
    hw.works.linked, hw.works.fault⟩
  valid := hw.valid
  unused k' hk' := hw.unused k' (Nat.le_trans (Nat.le_of_eq (List.length_modify ..).symm) hk')
  absent hnone := absurd (hk.symm.trans hnone) (by simp)
  filed k' hk' := by
    obtain rfl := Option.some.inj (hk.symm.trans hk')
    have hfiled := hw.filed k hk
    have hsync : (w.show k hook).hub.synchronizer k = hook.shownTo (w.hub.synchronizer k) :=
      (Hub.getD_modify ..).trans (if_pos ⟨rfl, hfiled.known⟩)
    obtain ⟨huri, hversion⟩ := shownTo_eq (w.hub.synchronizer k) hook
    refine ⟨?_, ?_, ?_, ?_⟩
    · exact Nat.lt_of_lt_of_eq hfiled.known (List.length_modify ..).symm
    · rw [hsync, huri, hfiled.uri]
    · rw [hsync, hversion, hfiled.version]
      rfl
    · rw [hsync]
      exact hfiled.collects.shownTo hook
  follows := hw.follows
  tidy n hfree := by
    cases n with
    | send k' => exact hw.tidy (.send k') hfree
    | _ => trivial

theorem rely_show {k : Nat} {hook : Hook} : Rely p me w (w.show k hook) := by
  refine binds_of_protected (fun _ => rfl) rfl (fun _ hk => hk) fun n _ _ _ _ => ?_
  cases n with
  | writer c => exact fun _ => rfl
  | send k' => exact fun hk' => ⟨hk', rfl, rfl⟩
  | _ => trivial

theorem Crew.hook (hcrew : Crew p x w) (hook : Hook) :
    ∃ w', Crew p (x.step p (.hook hook)) w' := by
  have hhub : w.hub = x.hub := hcrew.hub
  change ∃ w', Crew p ⟨{ x.machine with state := Course.shown p x.hub hook },
    if (p.attached x.hub).isSome then x.hooks ++ [hook] else x.hooks⟩ w'
  rw [← hhub, ← hcrew.hooks, shown_eq, Session.hook]
  cases hattached : p.attached w.hub with
  | none =>
    have hlookup : (w.hub.session p.session).synchronizer? p.uri = none := hattached
    rw [hlookup]
    exact ⟨w, hcrew.outside hcrew.inv (fun _ => .refl w) (fun _ => rfl) rfl⟩
  | some k =>
    have hlookup : (w.hub.session p.session).synchronizer? p.uri = some k := hattached
    rw [hlookup]
    exact ⟨w.show k hook, hcrew.outside (inv_show hcrew.inv hattached hook) (fun _ => rely_show)
      (fun _ => rfl) rfl⟩

/-! ## Going on -/

/-- A ticket that is in a send lock after a leg is one of a task that has not ended. -/
theorem Crew.owner_advance (hcrew : Crew p x w) {place : Nat} {task : RunningTask Job Hub}
    (htask : x.machine.tasks[place]? = some task) (hinv : w'.Inv p)
    (hguarantee : Guarantee p task.id w w')
    (hended : (task.rest.resumed.legFrom x.machine.state []).result? = some none →
      w'.Clear task.id) {k t : Nat} (hmem : t ∈ (w'.hub.lock (.send k)).tickets) :
    ∃ task ∈ (x.machine.advance Job.program place).tasks, task.id = w'.owner (.send k) t := by
  -- The task's own tickets are gone when it ends; all others were there before the leg.
  by_cases hown : w'.owner (.send k) t = task.id
  · rw [hown]
    exact Machine.exists_mem_advance Job.program htask fun hend => hended hend k t hmem hown
  · have hissued : t < (w.hub.lock (.send k)).next := Nat.lt_of_not_le fun hnew =>
      hown (hguarantee.binds.given (.send k) t trivial hnew ((hinv.valid _).issued t hmem))
    have hsame := hguarantee.binds.owner (.send k) t trivial hissued
    obtain ⟨other, hother, hid⟩ :=
      hcrew.owners k t (hguarantee.binds.gone (.send k) t trivial hissued hmem)
    rw [hsame] at hown ⊢
    exact ⟨other, Machine.mem_advance htask hother (hid ▸ hown), hid⟩

theorem Crew.goOn (hcrew : Crew p x w) (place : Nat) :
    ∃ w', Crew p (x.step p (.goOn place)) w' := by
  rw [Course.step]
  cases htask : x.machine.tasks[place]? with
  | none =>
    rw [Machine.advance_of_none htask]
    exact ⟨w, hcrew⟩
  | some task =>
    by_cases hready : task.rest.isReady x.machine.state = true
    · obtain ⟨w', hadv⟩ := hcrew.tasks.advances (List.mem_of_getElem? htask) hready
        (passes_of_forall (fun _ _ => trivial) _ _) fun _ _ _ h => h.1
      have hended : ∀ r, (task.rest.resumed.legFrom x.machine.state []).result? = some r →
          r = none ∧ w'.Clear task.id := by
        intro r hr
        obtain ⟨m', -, hnow, hgoal⟩ := hadv.ended r hr
        exact ⟨hgoal.2.1, hnow ▸ hgoal.2.2⟩
      refine ⟨w', hcrew.tasks.advance trivial htask hready hadv (fun job hjob => hjob.elim)
        fun job hjob => ?_, hadv.guarantee.hooks.trans hcrew.hooks, fun k t hmem => ?_⟩
      · cases (hended _ hjob).1
      · exact hcrew.owner_advance htask hadv.inv hadv.guarantee (fun hend => (hended _ hend).2)
          hmem
    · rw [Machine.advance_of_not_ready htask hready]
      exact ⟨w, hcrew⟩

theorem Crew.step (hcrew : Crew p x w) {event : Event} (hevent : event.IsAt p) :
    ∃ w', Crew p (x.step p event) w' := by
  cases event with
  | goOn place => exact hcrew.goOn place
  | call slot c => exact ⟨w, hcrew.call hevent⟩
  | hook hook => exact hcrew.hook hook
  | others change => exact hcrew.others hevent

theorem Crew.run (hcrew : Crew p x w) {events : List Event}
    (hevents : ∀ event ∈ events, event.IsAt p) : ∃ w', Crew p (x.run p events) w' := by
  induction events generalizing x w with
  | nil => exact ⟨w, hcrew⟩
  | cons event rest ih =>
    rw [List.forall_mem_cons] at hevents
    obtain ⟨w', hcrew'⟩ := hcrew.step hevents.1
    exact ih hcrew' hevents.2

/-! ## Every course -/

theorem crew_start {h : Hub} (hfresh : IsFresh p h) :
    Crew p (.start h) ⟨h, fun _ _ => 0, [], []⟩ where
  tasks := {
    state := rfl
    inv := {
      works := hfresh.works
      valid := fun n => Lock.valid_of_tickets (hfresh.idle n)
      unused := fun k _ => Lock.isFree_of_tickets (hfresh.idle _)
      absent := fun _ => ⟨hfresh.unheard, rfl, rfl⟩
      filed := fun k hk => absurd (hfresh.apart.symm.trans hk) (by simp)
      follows := .inl ⟨hfresh.unheard, rfl⟩
      tidy := fun n _ => by
        cases n with
        | send k => exact fun hk => absurd (hfresh.apart.symm.trans hk) (by simp)
        | _ => trivial }
    issued := fun _ htask => nomatch htask
    distinct := .nil
    waits := fun _ htask => nomatch htask }
  hooks := rfl
  owners k t hmem := by
    rw [hfresh.idle] at hmem
    cases hmem

/-- When all calls are over nobody has the word. -/
theorem Crew.told (hcrew : Crew p x w) (hover : x.machine.tasks = []) {k : Nat}
    (hk : p.attached w.hub = some k) : w.Told p := by
  refine hcrew.inv.tidy (.send k) (Lock.isFree_of_tickets ?_) hk
  refine List.eq_nil_iff_forall_not_mem.mpr fun t hmem => ?_
  obtain ⟨task, htask, -⟩ := hcrew.owners k t hmem
  rw [hover] at htask
  cases htask

theorem Crew.account (hcrew : Crew p x w) : ∃ said late, Account p x said late := by
  have hcourse : x = ⟨{ x.machine with state := w.hub }, w.hooks⟩ := by
    rw [hcrew.hub, hcrew.hooks]
    rfl
  have htold : x.machine.tasks = [] → ∀ k, p.attached w.hub = some k → w.Told p :=
    fun hover k hk => hcrew.told hover hk
  have hinv := hcrew.inv
  generalize x.machine = machine at hcourse htold
  subst hcourse
  cases hattached : p.attached w.hub with
  | none =>
    obtain ⟨hheard, -, hhooks⟩ := hinv.absent hattached
    exact ⟨[], [], .inl ⟨hheard, rfl, rfl⟩, Nat.zero_le _,
      fun _ => ⟨rfl, fun hsome => absurd hattached hsome⟩,
      fun k hk => (nomatch hattached.symm.trans hk), fun _ => ⟨hheard, hhooks⟩⟩
  | some k =>
    have hcollects : ∀ k, p.attached w.hub = some k →
        (w.hub.synchronizer k).Collects w.hooks w.taken := fun k hk => (hinv.filed k hk).collects
    have hconnected : p.attached w.hub = none → p.heard w.hub = [] ∧ w.hooks = [] :=
      fun hnone => (nomatch hattached.symm.trans hnone)
    -- While calls are under way, what the last commit took may still be on its way.
    by_cases hover : machine.tasks = []
    · have htells : Tells p.uri w.taken (p.heard w.hub) := htold hover k hattached
      refine ⟨w.taken, [], .inr htells, Nat.zero_le _, fun _ => ⟨rfl, fun _ => htells⟩, ?_,
        hconnected⟩
      rw [List.append_nil]
      exact hcollects
    · rcases hinv.follows with ⟨hheard, htaken⟩ | ⟨said, late, htaken, hsingle, htells⟩
      · rw [htaken] at hcollects
        exact ⟨[], [], .inl ⟨hheard, rfl, rfl⟩, Nat.zero_le _, fun h => absurd h hover, hcollects,
          hconnected⟩
      · rw [htaken] at hcollects
        exact ⟨said, late, .inr htells, hsingle, fun h => absurd h hover, hcollects, hconnected⟩

/-- However the calls take turns, the server is told of the opening and then of all that commits
take, in order and once. -/
theorem account_of_run {h : Hub} (hfresh : IsFresh p h) {events : List Event}
    (hevents : ∀ event ∈ events, event.IsAt p) :
    ∃ said late, Account p (Course.run p (.start h) events) said late := by
  obtain ⟨w, hcrew⟩ := (crew_start hfresh).run hevents
  exact hcrew.account

/-- A commit and a save come while the opening is being written, and another edit and commit while
the first change is. -/
theorem account_of_run_crowded :
    let p : Site := ⟨0, "file:///d", 0, 0⟩
    let capabilities : ServerCapabilities := ⟨.mkObj [("textDocumentSync", .ofNat 2)]⟩
    let h : Hub := { Hub.new .empty [] ⟨⟨1000⟩, ⟨1000⟩, ⟨0⟩, .notification⟩ with
      sessions := [{ Session.new "a" 0 .application [] .factory with
        state := .started, running := some ⟨0, capabilities⟩ }]
      clients := [.new "a" 0 [] ⟨1000⟩ 0]
      links := [⟨"a", "/", { Link.fresh with room := some 30 }⟩] }
    let events : List Event :=
      .call 0 (.connect 0 ⟨"file:///d", "/d", ⟨"x", []⟩⟩ "t") :: List.replicate 4 (.goOn 0) ++
        [.call 1 (.commit 0 "file:///d"), .call 2 (.save 0 "file:///d" "t"),
          .call 3 (.commit 0 "file:///d"), .goOn 1, .goOn 1, .goOn 1,
          .hook (.before ⟨"t"⟩ ⟨1, 0, "!"⟩), .hook (.after ⟨"t!"⟩),
          .others (Hub.onLink 0 fun l => { l with room := none }), .goOn 0, .goOn 0,
          .hook (.before ⟨"t!"⟩ ⟨2, 0, "?"⟩), .hook (.after ⟨"t!?"⟩), .goOn 2, .goOn 2, .goOn 0,
          .goOn 1, .goOn 1, .goOn 0, .goOn 0, .goOn 0]
    let x := Course.run p (.start h) events
    let notices : List DocumentNotice :=
      [.opened "file:///d" "x" 1 "t",
        .changed "file:///d" 2 [⟨some ⟨⟨0, 1⟩, ⟨0, 1⟩⟩, some 0, "!"⟩],
        .saved "file:///d" (some "t"),
        .changed "file:///d" 3 [⟨some ⟨⟨0, 2⟩, ⟨0, 2⟩⟩, some 0, "?"⟩]]
    IsFresh p h ∧ (∀ event ∈ events, event.IsAt p) ∧ (∃ said late, Account p x said late) ∧
      x.machine.tasks.length = 0 ∧
      (x.hub.link 0).bytesOut = notices.flatMap fun n => n.message.frame := by
  intro p capabilities h events x notices
  have hfresh : IsFresh p h :=
    ⟨⟨by decide, rfl, rfl, rfl, rfl, by decide, rfl⟩, fun _ => rfl, rfl, rfl⟩
  have hevents : ∀ event ∈ events, event.IsAt p := by
    have hroom : Event.IsAt p (.others (Hub.onLink 0 fun l => { l with room := none })) :=
      fun h => ⟨Hub.outline_onLink (fun _ => rfl) fun _ => rfl, by
        rw [Hub.link_onLink]
        split <;> rfl⟩
    simp only [events, List.cons_append, List.replicate, List.nil_append, List.forall_mem_cons]
    exact ⟨⟨rfl, rfl⟩, trivial, trivial, trivial, trivial, ⟨rfl, rfl⟩, ⟨rfl, rfl⟩, ⟨rfl, rfl⟩,
      trivial, trivial, trivial, trivial, trivial, hroom, trivial, trivial, trivial, trivial,
      trivial, trivial, trivial, trivial, trivial, trivial, trivial, trivial, by simp⟩
  have hfacts : (fun x : Course => x.machine.tasks.length = 0 ∧
      (x.hub.link 0).bytesOut = notices.flatMap fun n => n.message.frame) x := by
    decide +kernel
  exact ⟨hfresh, hevents, account_of_run hfresh hevents, hfacts⟩

end LanguageHub.Parley
