import LanguageHub.Proofs.Settings.Crew
import LanguageHub.Proofs.Settings.Changes

/-!
# Settings in every run

Settings change while sessions are started, stopped and restarted in any order. When the watcher has
heard of all changes and all calls have returned, every session that runs has been told the settings
that there are now.

Laws: what was told last is what the settings have been since they changed last.
-/

namespace LanguageHub

theorem Json.eq_some_str {v : Option Json} {text : String} (h : v.bind Json.str? = some text) :
    v = some (.str text) := by
  obtain ⟨v, rfl, htext⟩ := Option.bind_eq_some_iff.mp h
  cases v <;> cases htext
  rfl

/-- No session was started yet, and what is on the roster belongs to definitions by their ids. -/
structure Hub.IsSetUp (h : Hub) : Prop where
  unspoken : h.IsUnspoken
  sound : h.registry.events.IsSound
  distinct : h.registry.ids.Nodup
  numbered : h.registry.Numbered
  enrolled : ∀ s ∈ h.roster, s < h.sessions.length
  registered : ∀ s ∈ h.roster, ∀ d,
    h.registry.object? (h.session s).definition = some d → d.id = (h.session s).serverId

theorem Hub.isSetUp_of_run {h : Hub} {operations : List Registry.Operation}
    (hregistry : h.registry = Registry.run operations) (hunspoken : h.IsUnspoken)
    (hroster : h.roster = []) : h.IsSetUp where
  unspoken := hunspoken
  sound := hregistry ▸ Registry.isSound_run operations
  distinct := hregistry ▸ Registry.nodup_ids_run operations
  numbered := hregistry ▸ Registry.numbered_run operations
  enrolled s hs := by
    rw [hroster] at hs
    cases hs
  registered s hs := by
    rw [hroster] at hs
    cases hs

namespace Briefing

open Routine Pact Company
open Lifecycle (Action step run)
open Following (watcher begin KeepsUp HasSeenAll)

variable {calls : Nat → Prop} {w w' : World} {m : Machine Job Hub} {h : Hub}
  {actions : List Action}

/-! ## Steps -/

/-- Settings of one definition are set, changed or cleared, or sessions come on the roster for a
document. Else calls go through sessions, and whatever else happens tells nobody anything. -/
def IsUsual : Action → Prop
  | .goOn _ => True
  | .call _ c => c.IsThroughSessions
  | .others change =>
    (∃ id settings, change = Hub.onRegistry (.update id ⟨some settings, none, none⟩)) ∨
      (∃ document, change = fun h => (h.sessionsFor document).2) ∨
      ∀ h, Manners.Quiet (fun _ _ => False) (fun _ => False) h (change h) ∧ h.Mutes (change h)

/-- The task of a call is one of these, and its session is there. -/
def IsExpected (calls : Nat → Prop) (m : Machine Job Hub) : Action → Prop
  | .call _ c => calls m.nextTask ∧ m.state.HasSessionFor c
  | _ => True

theorem Crew.call {call : Call} (hcrew : Crew calls m w) (slot : Nat)
    (hcall : call.IsThroughSessions) (hexpected : IsExpected calls m (.call slot call)) :
    Crew calls (m.start Job.program (.call slot call)) w where
  state := hcrew.state
  inv := hcrew.inv
  tidy := hcrew.tidy.start _
  begun := Nat.lt_succ_of_lt hcrew.begun
  placed t ht := by
    rcases List.mem_append.mp ht with hold | hnew
    · exact hcrew.placed t hold
    · rw [List.mem_singleton.mp hnew]
      refine (isPlaced_of_ne (Nat.ne_of_gt hcrew.begun)).mpr (waits_call slot hexpected.1 hcall ?_
        (hcrew.clean (Nat.le_refl _)) hcrew.records)
      rw [hcrew.state]
      exact hexpected.2
  debts s c id x hbegan := by
    obtain ⟨hid, hissued, hdebt⟩ := hcrew.debts s c id x hbegan
    exact ⟨hid, Nat.lt_succ_of_lt hissued, hdebt.imp_right fun ⟨t, ht, heq⟩ =>
      ⟨t, List.mem_append_left _ ht, heq⟩⟩

/-- What comes from elsewhere brings no session to run. -/
theorem Crew.outside (hcrew : Crew calls m w) (hinv : (company calls).inv w')
    (hguarantee : Manners.Guarantee m.nextTask w.manners w'.manners) (hlater : Later w w')
    (hbegan : ∀ s c id x, w'.began s c id x → w.began s c id x) :
    Crew calls { m with state := w'.hub } w' where
  state := rfl
  inv := hinv
  tidy := ⟨hcrew.tidy.issued, hcrew.tidy.distinct⟩
  begun := hcrew.begun
  placed t ht := (hcrew.placed t ht).later hcrew.records
    ((company calls).rely_of_guarantee (Nat.ne_of_lt (hcrew.tidy.issued t ht)) trivial hcrew.inv
      hinv ⟨hguarantee, hlater, fun s c id x h => .inl (hbegan s c id x h)⟩)
  debts s c id x h := by
    have hbefore := hbegan s c id x h
    obtain ⟨hid, hissued, hdebt⟩ := hcrew.debts s c id x hbefore
    exact ⟨hid, hissued,
      hdebt.imp_left (hlater.briefed (hcrew.records.known s c id x hbefore))⟩

theorem Crew.step (hcrew : Crew calls m w) (hkeeps : KeepsUp m) {action : Action}
    (haction : IsUsual action) (hexpected : IsExpected calls m action) :
    ∃ w', Crew calls (Lifecycle.step m action) w' := by
  cases action with
  | goOn place => exact hcrew.goOn hkeeps place
  | call slot c => exact ⟨w, hcrew.call slot haction hexpected⟩
  | others change =>
    have hw := hcrew.records
    have hstate : m.state = w.hub := hcrew.state.symm
    rw [Lifecycle.step, Machine.modify, hstate]
    rcases haction with ⟨id, settings, rfl⟩ | ⟨document, rfl⟩ | hmutes
    · have hresets := Registry.resets_update hw.distinct id (some settings)
      obtain ⟨hinv, hguarantee⟩ := Manners.guarantee_of_quiet m.nextTask hcrew.inv.1
        (h := w.hub.onRegistry (.update id ⟨some settings, none, none⟩)) (.of_eq rfl rfl rfl rfl)
      exact ⟨w.move m.nextTask _, hcrew.outside
        ⟨hinv, records_resetTo hw hresets (Registry.numbered_apply hw.numbered _)⟩ hguarantee
        (later_resetTo hw hresets) fun _ _ _ _ => began_resetTo⟩
    · have hadmits := Hub.admits_sessionsFor document hw.distinct hw.numbered
      obtain ⟨hinv, hguarantee⟩ := Manners.guarantee_of_quiet m.nextTask hcrew.inv.1
        (quiet_admits hadmits)
      exact ⟨w.move m.nextTask _, hcrew.outside ⟨hinv, records_admits hw hadmits⟩ hguarantee
        (later_admits hw hadmits) fun _ _ _ _ => began_admits hadmits⟩
    · obtain ⟨hquiet, hmutes⟩ := hmutes w.hub
      obtain ⟨hinv, hguarantee⟩ := Manners.guarantee_of_quiet m.nextTask hcrew.inv.1 hquiet
      have hpasses := passes_mutes (m := (Moment.resume w : Moment (pact calls m.nextTask)))
        (sound_resume hw) hmutes
      refine ⟨w.move m.nextTask _, hcrew.outside ⟨hinv, hpasses.sound.inv⟩ hguarantee
        hpasses.later ?_⟩
      exact fun s c id x hbegan => hbegan.resolve_right fun hnew =>
        hnew.2.1 (hmutes.runs hnew.1)

/-- The tasks of the calls among these actions. -/
def callers (m : Machine Job Hub) : List Action → List Nat
  | [] => []
  | .call slot c :: rest => m.nextTask :: callers (step m (.call slot c)) rest
  | action :: rest => callers (step m action) rest

/-- No call comes before the session is there that it may start. -/
def HaveSessions (m : Machine Job Hub) : List Action → Prop
  | [] => True
  | .call slot c :: rest => m.state.HasSessionFor c ∧ HaveSessions (step m (.call slot c)) rest
  | action :: rest => HaveSessions (step m action) rest

instance decidableHaveSessions : ∀ (m : Machine Job Hub) (actions : List Action),
    Decidable (HaveSessions m actions)
  | _, [] => isTrue trivial
  | m, .call slot c :: rest =>
    have := decidableHaveSessions (step m (.call slot c)) rest
    inferInstanceAs (Decidable (m.state.HasSessionFor c ∧ HaveSessions _ rest))
  | m, .goOn place :: rest => decidableHaveSessions (step m (.goOn place)) rest
  | m, .others change :: rest => decidableHaveSessions (step m (.others change)) rest

theorem Crew.run (hcrew : Crew calls m w) (hactions : ∀ action ∈ actions, IsUsual action)
    (hthere : HaveSessions m actions) (hcalls : ∀ id ∈ callers m actions, calls id)
    (hkeeps : ∀ sooner, sooner <+: actions → KeepsUp (run m sooner)) :
    ∃ w', Crew calls (run m actions) w' := by
  induction actions generalizing m w with
  | nil => exact ⟨w, hcrew⟩
  | cons action rest ih =>
    rw [List.forall_mem_cons] at hactions
    obtain ⟨hexpected, hthere', hcalls'⟩ : IsExpected calls m action ∧
        HaveSessions (Lifecycle.step m action) rest ∧
        ∀ id ∈ callers (Lifecycle.step m action) rest, calls id := by
      cases action with
      | goOn place => exact ⟨trivial, hthere, hcalls⟩
      | call slot c =>
        rw [callers, List.forall_mem_cons] at hcalls
        exact ⟨⟨hcalls.1, hthere.1⟩, hthere.2, hcalls.2⟩
      | others change => exact ⟨trivial, hthere, hcalls⟩
    obtain ⟨w₁, hcrew₁⟩ := hcrew.step (hkeeps [] List.nil_prefix) hactions.1 hexpected
    exact ih hcrew₁ hactions.2 hthere' hcalls' fun sooner hsooner =>
      hkeeps (action :: sooner) (List.cons_prefix_cons.mpr ⟨rfl, hsooner⟩)

/-! ## The beginning -/

/-- Nothing has been told, and nothing was to be told so far. -/
def World.start (manners : Manners.World) : World where
  manners := manners
  since := manners.hub.date
  past _ := manners.hub.settingsOf
  dated _ _ := 0
  began _ _ _ _ := False

theorem crew_begin (calls : Nat → Prop) (hh : h.IsSetUp) : ∃ w, Crew calls (begin h) w := by
  have hmanners := (Manners.crew_ofState hh.unspoken).inv
  have hidle : ∀ s c, ¬ h.Runs s c := fun s c hruns => by
    cases (hh.unspoken.speaker s).symm.trans hruns.speaker
  have hnone : ∀ c, ¬ ∃ t, t < (h.queue c).next := by
    rintro c ⟨t, ht⟩
    rw [hh.unspoken.queue] at ht
    exact Nat.not_lt_zero t ht
  refine ⟨World.start ⟨h, _, _, _, _, _, _⟩, ⟨rfl, ⟨hmanners, ?_⟩, (Machine.tidy_ofState h).start _,
    Nat.zero_lt_one, fun t ht => ?_, fun _ _ _ _ => False.elim⟩⟩
  · constructor
    case since => exact Nat.le_refl _
    case past => rfl
    case began => exact fun s c hruns => absurd hruns (hidle s c)
    case known => exact fun _ _ _ _ => False.elim
    case fits => exact fun s c hruns => absurd hruns (hidle s c)
    case dated => exact fun c t ht => absurd ⟨t, ht⟩ (hnone c)
    case order => exact fun _ _ _ _ _ => Nat.le_refl _
    case enrolled => exact hh.enrolled
    case registered => exact hh.registered
    case distinct => exact hh.distinct
    case numbered => exact hh.numbered
    case sound => exact hh.sound
    case heralds =>
      intro e event rest hsince holdest hahead
      exact absurd (Broadcast.lt_sent_of_ahead hh.sound holdest hahead) (Nat.not_lt_of_le hsince)
  · rw [List.mem_singleton.mp ht]
    exact (isPlaced_watcher rfl).mpr (.waits _ ⟨Nat.le_refl _, Nat.le_refl _,
      fun e hsince he => absurd he (Nat.not_lt_of_le hsince)⟩)

/-! ## The end -/

/-- When a value came to be what it is at the end. -/
theorem exists_last_change {α : Type} (f : Nat → α) {a b : Nat} (hab : a ≤ b) :
    ∃ x, a ≤ x ∧ x ≤ b ∧ (∀ e, x ≤ e → e ≤ b → f e = f b) ∧
      (x = a ∨ ∃ y, x = y + 1 ∧ a ≤ y ∧ f y ≠ f x) := by
  induction b, hab using Nat.le_induction with
  | base =>
    exact ⟨a, Nat.le_refl a, Nat.le_refl a, fun e he he' => by rw [Nat.le_antisymm he' he],
      .inl rfl⟩
  | succ b hab ih =>
    obtain ⟨x, ha, hb, hsame, hlast⟩ := ih
    by_cases hchanged : f b = f (b + 1)
    · refine ⟨x, ha, Nat.le_succ_of_le hb, fun e he he' => ?_, hlast⟩
      rcases Nat.lt_or_eq_of_le he' with he' | rfl
      · exact (hsame e he (Nat.le_of_lt_succ he')).trans hchanged
      · rfl
    · exact ⟨b + 1, Nat.le_succ_of_le hab, Nat.le_refl _,
        fun e he he' => by rw [Nat.le_antisymm he' he], .inr ⟨b, rfl, hab, hchanged⟩⟩

/-- When all changes have been seen to and all are told on whom sessions were brought to run,
whoever can be told has been told the settings that there are. -/
theorem told_of_served {s c : Nat} {v : Json} (hw : w.Records) (hserved : w.Served w.date)
    (hclean : ∀ s c id x, w.began s c id x → w.Briefed c x) (hs : s ∈ w.hub.roster)
    (hruns : w.hub.Runs s c) (hears : ¬ w.hub.IsDeaf c)
    (hv : w.hub.settingsOf (w.hub.session s).definition = some v) : w.hub.told? c = some v := by
  obtain ⟨x, hsince, hx, hsame, hlast⟩ :=
    exists_last_change (fun e => w.past e (w.hub.session s).definition) hw.since
  have hnow : ∀ e, x ≤ e → e ≤ w.date → w.past e (w.hub.client c).definition = some v := by
    intro e he he'
    rw [(hw.fits s c hruns).definition]
    refine (hsame e he he').trans ?_
    rw [hw.past]
    exact hv
  have hbriefed : w.Briefed c x := by
    obtain ⟨id, y, hbegan, hy⟩ := hw.began s c hruns
    rcases hlast with rfl | ⟨e, rfl, he, hchanged⟩
    · exact (hclean s c id y hbegan).mono hy
    · rcases hserved.reached e he hx s hs hchanged c hruns with hreached | ⟨id, z, hbegan, hz⟩
      · exact hreached
      · exact (hclean s c id z hbegan).mono hz
  rcases hbriefed with hheard | hdeaf | ⟨e, he, he', hnone⟩
  · obtain ⟨e, v', he, he', hpast, htold⟩ := hheard.told
    rw [hnow e he he'] at hpast
    rw [htold, hpast]
  · exact absurd hdeaf hears
  · cases (hnow e he he').symm.trans hnone

/-- No call is under way. -/
def HaveReturned (h : Hub) (actions : List Action) : Prop :=
  ∀ t ∈ (run (begin h) actions).tasks, t.id ∉ callers (begin h) actions

instance : Decidable (HaveReturned h actions) :=
  inferInstanceAs
    (Decidable (∀ t ∈ (run (begin h) actions).tasks, t.id ∉ callers (begin h) actions))

/-- The run is a usual one, the watcher has kept up and heard of everything, and every call has
returned. -/
structure Settles (h : Hub) (actions : List Action) : Prop where
  setUp : h.IsSetUp
  usual : ∀ action ∈ actions, IsUsual action
  sessions : HaveSessions (begin h) actions
  keepsUp : ∀ sooner, sooner <+: actions → KeepsUp (run (begin h) sooner)
  all : HasSeenAll (run (begin h) actions)
  returned : HaveReturned h actions

/-- Then each session that runs has been told the settings of its definition, as they are now,
unless its connection is closed or broken. -/
theorem briefed_of_run (hrun : Settles h actions) {s c : Nat} {v : Json}
    (hs : s ∈ (run (begin h) actions).state.roster)
    (hruns : (run (begin h) actions).state.Runs s c)
    (hears : ¬ (run (begin h) actions).state.IsDeaf c)
    (hv : ((run (begin h) actions).state.definitionOf s).settings = some v) :
    (run (begin h) actions).state.told? c = some v := by
  obtain ⟨w₀, hcrew₀⟩ := crew_begin (· ∈ callers (begin h) actions) hrun.setUp
  obtain ⟨w, hcrew⟩ := hcrew₀.run hrun.usual hrun.sessions (fun _ => id) hrun.keepsUp
  rw [Hub.settings_definitionOf] at hv
  rw [← hcrew.state] at hs hruns hears hv ⊢
  obtain ⟨t, ht, hid, hwaits⟩ := hrun.all
  have hserved : w.Served w.date := by
    refine ((isPlaced_watcher hid).mp (hcrew.placed t ht)).served (hwaits.trans ?_)
    rw [← hcrew.state]
    rfl
  refine told_of_served hcrew.records hserved (fun s c id x hbegan => ?_) hs hruns hears hv
  obtain ⟨hid, -, hbriefed | ⟨t, ht, rfl⟩⟩ := hcrew.debts s c id x hbegan
  · exact hbriefed
  · exact absurd hid (hrun.returned t ht)

/-! ### Runs -/

theorem usual_goOn (places : List Nat) : ∀ action ∈ places.map Action.goOn, IsUsual action :=
  List.forall_mem_map.mpr fun _ _ => trivial

theorem usual_arrive (l : Nat) (m : Message) :
    IsUsual (.others (Hub.onLink l (·.arrive m.frame))) := by
  have hsame : ∀ link : Link, (link.arrive m.frame).outgoing = link.outgoing ∧
      (link.arrive m.frame).writeFault = link.writeFault := fun link => by
    unfold Link.arrive
    split <;> exact ⟨rfl, rfl⟩
  refine .inr (.inr fun h => ⟨Manners.polite_arrive l m h, .onLink ?_ fun hbroken => ?_⟩)
  · rw [Link.told?, (hsame _).1]
    rfl
  · rw [Link.IsBroken, (hsame _).2]
    exact hbroken

/-- What there is to compute when the watcher makes its last leg at this place: nothing was pushed
out of the channel before. -/
def Checks (h : Hub) (actions : List Action) (place : Nat) : Prop :=
  (∀ sooner ∈ (actions ++ [Action.goOn place]).inits,
    (run (begin h) sooner).state.registry.events.oldest = 0) ∧
  Following.CatchesUp (run (begin h) actions) place = true ∧
  HaveSessions (begin h) (actions ++ [Action.goOn place]) ∧
  HaveReturned h (actions ++ [Action.goOn place])

instance {place : Nat} : Decidable (Checks h actions place) :=
  inferInstanceAs (Decidable (_ ∧ _ ∧ _ ∧ _))

theorem Checks.settles {place : Nat} (h' : Checks h actions place) (hh : h.IsSetUp)
    (hactions : ∀ action ∈ actions, IsUsual action) :
    Settles h (actions ++ [Action.goOn place]) where
  setUp := hh
  usual := List.forall_mem_append.mpr ⟨hactions, List.forall_mem_singleton.mpr trivial⟩
  sessions := h'.2.2.1
  keepsUp := Following.keepsUp_of_whole h'.1
  all := Following.hasSeenAll_of_catchesUp h'.2.1
  returned := h'.2.2.2

namespace Trial

/-- There is one definition, whose settings are "one", and its server starts so. -/
def hub (launch : Launch) : Hub :=
  let d := { ServerDefinition.new "py" .factory with settings := some (.str "one") }
  let operations : List Registry.Operation := [.add d, .associate ⟨"python", []⟩ "py" none none]
  { Hub.new (Registry.run operations) ["/w"] ⟨⟨1000⟩, ⟨1000⟩, ⟨0⟩, .notification⟩ with
    launches := [("py", [launch])] }

/-- A document brings a session on the roster, and it is started until its server has to answer. -/
def opening : List Action :=
  [.others fun h => (h.sessionsFor ⟨"file:///w/a", "/w/a", ⟨"python", []⟩⟩).2,
    .call 0 (.startSession 0)] ++ [1, 1, 1, 1, 1, 1, 1, 2].map .goOn

def answer : Message := .success (.number 1) (.mkObj [("capabilities", .mkObj [])])

def answering : Action := .others (Hub.onLink 0 (·.arrive answer.frame))

def setting (settings : Json) : Action :=
  .others (Hub.onRegistry (.update "py" ⟨some settings, none, none⟩))

theorem isSetUp_hub (launch : Launch) : (hub launch).IsSetUp :=
  Hub.isSetUp_of_run rfl ⟨rfl, rfl, fun s => by cases s <;> rfl, fun _ => rfl⟩ rfl

theorem usual_opening : ∀ action ∈ opening, IsUsual action := by
  simp only [opening, List.forall_mem_append, List.forall_mem_cons]
  exact ⟨⟨.inr (.inl ⟨_, rfl⟩), trivial, nofun⟩, usual_goOn _⟩

theorem usual_answering : IsUsual answering := usual_arrive 0 answer

theorem usual_setting (settings : Json) : IsUsual (setting settings) := .inl ⟨"py", settings, rfl⟩

end Trial

open Trial (hub opening answering setting)

/-- The settings change while the handshake is under way, and again when the session runs. -/
theorem briefed_of_run_changed :
    let h := hub (.opened none none)
    let sooner := opening ++ [setting (.str "two"), answering] ++
      [0, 0, 2, 0, 1, 1, 2, 2, 2].map .goOn ++ [setting (.str "three")] ++ [0, 2].map .goOn
    let actions := sooner ++ [.goOn 2]
    Settles h actions ∧ 0 ∈ (run (begin h) actions).state.roster ∧
      (run (begin h) actions).state.Runs 0 0 ∧ ¬ (run (begin h) actions).state.IsDeaf 0 ∧
      ((run (begin h) actions).state.definitionOf 0).settings = some (.str "three") ∧
      (run (begin h) actions).state.told? 0 = some (.str "three") := by
  intro h sooner actions
  have hsooner : ∀ action ∈ sooner, IsUsual action := by
    simp only [sooner, List.forall_mem_append, List.forall_mem_cons]
    exact ⟨⟨⟨⟨Trial.usual_opening, Trial.usual_setting _, Trial.usual_answering, nofun⟩,
      usual_goOn _⟩, Trial.usual_setting _, nofun⟩, usual_goOn _⟩
  have hrun : Checks h sooner 2 ∧ 0 ∈ (run (begin h) actions).state.roster ∧
      (((run (begin h) actions).state.session 0).state = .started ∧
        (run (begin h) actions).state.speaker 0 = some 0) ∧
      ¬ (run (begin h) actions).state.IsDeaf 0 ∧
      ((run (begin h) actions).state.definitionOf 0).settings.bind Json.str? = some "three" := by
    decide +kernel
  obtain ⟨hchecks, hroster, hruns, hears, hsettings⟩ := hrun
  have hsettles : Settles h actions := hchecks.settles (Trial.isSetUp_hub _) hsooner
  have hruns := Hub.runs_iff.mpr hruns
  have hsettings := Json.eq_some_str hsettings
  exact ⟨hsettles, hroster, hruns, hears, hsettings,
    briefed_of_run hsettles hroster hruns hears hsettings⟩

/-- Nothing is told of settings that are cleared, and nothing can be told where nothing can be
written any more: the session runs on with the settings that its server was told before. -/
theorem untold_of_run :
    let started := opening ++ [answering] ++ [1, 2, 1, 1, 1, 2, 2, 2].map .goOn
    let intact := hub (.opened none none)
    let clearing := started ++ [setting .null]
    let cleared := clearing ++ [.goOn 0]
    let broken := hub (.opened none (some ⟨3, "broken pipe"⟩))
    let changing := started ++ [setting (.str "two")] ++ [0, 2].map .goOn
    let changed := changing ++ [.goOn 2]
    (Settles intact cleared ∧ 0 ∈ (run (begin intact) cleared).state.roster ∧
      (run (begin intact) cleared).state.Runs 0 0 ∧
      ¬ (run (begin intact) cleared).state.IsDeaf 0 ∧
      ((run (begin intact) cleared).state.definitionOf 0).settings = none ∧
      (run (begin intact) cleared).state.told? 0 = some (.str "one")) ∧
    Settles broken changed ∧ 0 ∈ (run (begin broken) changed).state.roster ∧
      (run (begin broken) changed).state.Runs 0 0 ∧
      ((run (begin broken) changed).state.definitionOf 0).settings = some (.str "two") ∧
      (run (begin broken) changed).state.told? 0 = some (.str "one") := by
  intro started intact clearing cleared broken changing changed
  have hstarted : ∀ v, ∀ action ∈ started ++ [setting v], IsUsual action := fun v => by
    simp only [started, List.forall_mem_append, List.forall_mem_singleton]
    exact ⟨⟨⟨Trial.usual_opening, Trial.usual_answering⟩, usual_goOn _⟩, Trial.usual_setting v⟩
  have hcleared : Checks intact clearing 0 ∧ 0 ∈ (run (begin intact) cleared).state.roster ∧
      (((run (begin intact) cleared).state.session 0).state = .started ∧
        (run (begin intact) cleared).state.speaker 0 = some 0) ∧
      ¬ (run (begin intact) cleared).state.IsDeaf 0 ∧
      ((run (begin intact) cleared).state.definitionOf 0).settings.isNone = true ∧
      ((run (begin intact) cleared).state.told? 0).bind Json.str? = some "one" := by
    decide +kernel
  have hchanged : Checks broken changing 2 ∧ 0 ∈ (run (begin broken) changed).state.roster ∧
      (((run (begin broken) changed).state.session 0).state = .started ∧
        (run (begin broken) changed).state.speaker 0 = some 0) ∧
      ((run (begin broken) changed).state.definitionOf 0).settings.bind Json.str? = some "two" ∧
      ((run (begin broken) changed).state.told? 0).bind Json.str? = some "one" := by
    decide +kernel
  refine ⟨?cleared, ?broken⟩
  case cleared =>
    obtain ⟨hchecks, hroster, hruns, hears, hnone, htold⟩ := hcleared
    exact ⟨hchecks.settles (Trial.isSetUp_hub _) (hstarted _), hroster, Hub.runs_iff.mpr hruns,
      hears, Option.isNone_iff_eq_none.mp hnone, Json.eq_some_str htold⟩
  case broken =>
    obtain ⟨hchecks, hroster, hruns, hsettings, htold⟩ := hchanged
    exact ⟨hchecks.settles (Trial.isSetUp_hub _)
      (List.forall_mem_append.mpr ⟨hstarted _, usual_goOn _⟩), hroster, Hub.runs_iff.mpr hruns,
      Json.eq_some_str hsettings, Json.eq_some_str htold⟩

end Briefing

end LanguageHub
