import LanguageHub.Proofs.Settings.Starting
import LanguageHub.Proofs.Settings.Changes

/-!
# The tasks that tell settings

Between two legs of tasks every session that was brought to run has been told the settings on its
client, or its call is still there. The watcher waits and has seen to all that came before the next
event, or it is about to.

Laws: a leg of any task leaves all tasks as they may expect.
-/

/-!
## Following changes of settings

The watcher pushes the settings to all sessions of the definition that an event tells of, and goes
on to the next event when it is done. So whoever ran on a client when an event came has been told
settings from after the change, or began to run later.

Laws: what has been done about an event is not undone.
-/

namespace LanguageHub.Briefing

open Routine Pact

variable {calls : Nat → Prop} {me c k s x y : Nat} {w w' : World} {m : Moment (pact calls me)}

/-! ### What the watcher has seen to -/

namespace World

theorem Reached.mono (h : w.Reached s y) (hle : x ≤ y) : w.Reached s x := fun c hruns =>
  (h c hruns).imp (·.mono hle) fun ⟨id, z, hbegan, hz⟩ => ⟨id, z, hbegan, Nat.le_trans hle hz⟩

/-- All changes of settings before this date have been seen to. -/
structure Served (w : World) (k : Nat) : Prop where
  since : w.since ≤ k
  date : k ≤ w.date
  reached : ∀ e, w.since ≤ e → e < k → ∀ s ∈ w.hub.roster,
    w.past e (w.hub.session s).definition ≠ w.past (e + 1) (w.hub.session s).definition →
      w.Reached s (e + 1)

end World

/-- A session that came on the roster meanwhile does not run, or began to since. -/
theorem Later.reached_new (hlater : Later w w') (hw : w.Records) (hx : x ≤ w.date)
    (hnew : w.hub.sessions.length ≤ s) : w'.Reached s x := by
  intro c hruns
  rcases hlater.runs s c hruns with hbefore | ⟨id, y, hbegan, hy⟩
  · exact absurd (hw.fits s c hbefore).session (Nat.not_lt_of_le hnew)
  · exact .inr ⟨id, y, hbegan, Nat.le_trans hx hy⟩

/-- What has been seen to stays so, and one more event is when all are reached of which it tells. -/
theorem World.Served.later (h : w.Served k) (hw : w.Records) (hlater : Later w w') :
    w'.Served k where
  since := hlater.since ▸ h.since
  date := Nat.le_trans h.date hlater.date
  reached e hsince he s hs hchanged := by
    have hdate : e + 1 ≤ w.date := Nat.le_trans he h.date
    rcases hlater.roster s hs with hold | hnew
    · rw [hlater.definition_session (hw.enrolled s hold), hlater.past e (Nat.le_of_lt hdate),
        hlater.past (e + 1) hdate] at hchanged
      exact hlater.reached hw hdate (h.reached e (hlater.since ▸ hsince) he s hold hchanged)
    · exact hlater.reached_new hw hdate hnew

theorem World.Served.succ (h : w.Served k) (hw : w.Records) (hdate : k + 1 ≤ w.date)
    (hlater : Later w w') (hreached : ∀ s ∈ w.hub.roster,
      w.past k (w.hub.session s).definition ≠ w.past (k + 1) (w.hub.session s).definition →
        w'.Reached s (k + 1)) : w'.Served (k + 1) where
  since := hlater.since ▸ Nat.le_succ_of_le h.since
  date := Nat.le_trans hdate hlater.date
  reached e hsince he s hs hchanged := by
    rcases Nat.lt_or_eq_of_le (Nat.le_of_lt_succ he) with he | rfl
    · exact (h.later hw hlater).reached e hsince he s hs hchanged
    · rcases hlater.roster s hs with hold | hnew
      · rw [hlater.definition_session (hw.enrolled s hold), hlater.past e (Nat.le_of_lt hdate),
          hlater.past (e + 1) hdate] at hchanged
        exact hreached s hold hchanged
      · exact hlater.reached_new hw hdate hnew

/-! ### Pushing to all sessions -/

theorem goes_reach (s : Nat) :
    Goes (Session.pushSettings s) m fun _ w => w.Reached s (World.date m.now) :=
  (goes_pushSettings s).mono fun _ _ hpasses hbriefed c hruns =>
    (hpasses.later.runs s c hruns).imp (hbriefed c) id

theorem goes_reachAll (sessions : List Nat) :
    Goes (inOrder (sessions.map Session.pushSettings)) m fun _ w =>
      ∀ s ∈ sessions, w.Reached s (World.date m.now) := by
  induction sessions generalizing m with
  | nil => exact goes_pure nofun
  | cons s rest ih =>
    refine (goes_reach s).bind fun a m₁ hpasses hreached => ?_
    have hdate : World.date m.now ≤ World.date m₁.now := hpasses.later.date
    refine Goes.bind (Q := fun _ w => ∀ s' ∈ rest, w.Reached s' (World.date m₁.now)) ih
      fun answers m₂ hpasses₂ hrest => goes_pure (List.forall_mem_cons.mpr ⟨?_, fun s' hs' => ?_⟩)
    · exact hpasses₂.later.reached hpasses.sound.inv hdate hreached
    · exact (hrest s' hs').mono hdate

theorem orderly_pushAll {m : Moment (Manners.pact me)} (sessions : List Nat) :
    Manners.IsOrderly (inOrder (sessions.map Session.pushSettings)) m := by
  induction sessions generalizing m with
  | nil => exact Manners.orderly_pure _
  | cons s rest ih =>
    exact (Manners.orderly_pushSettings s).bind fun _ _ _ =>
      Manners.IsOrderly.bind ih fun _ _ _ => Manners.orderly_pure _

theorem follow_settings (id : String) : Hub.follow (.changed id true false false) =
    get >>= fun h => inOrder ((h.sessionsOf id).map Session.pushSettings) >>= fun _ => pure () := by
  unfold Hub.follow
  simp

theorem orderly_follow {m : Moment (Manners.pact me)} (id : String) (k : Nat) :
    Manners.IsOrderly (thenWatch k (Hub.follow (.changed id true false false))) m := by
  rw [follow_settings]
  refine Manners.IsOrderly.bind (Manners.orderly_get ?_) fun _ _ _ => Manners.orderly_pure _
  exact (orderly_pushAll _).bind fun _ _ _ => Manners.orderly_pure _

/-- All sessions are reached of which the event tells. -/
theorem goes_follow {id : String} (hserved : w.Served k) (hdate : k + 1 ≤ w.date)
    (hchanged : ∀ n, w.past k n ≠ w.past (k + 1) n →
      ∃ d, w.hub.registry.object? n = some d ∧ d.id = id) :
    Goes (thenWatch (k + 1) (Hub.follow (.changed id true false false)))
      (Moment.resume w : Moment (pact calls me)) fun r w' =>
        r = some (.watchRegistry (k + 1)) ∧ w'.Served (k + 1) := by
  rw [follow_settings]
  refine goes_of_sound fun hm => Goes.bind (goes_get fun m₁ hpasses₁ hsame => (goes_reachAll _).bind
    (R := fun _ w' => w'.Served (k + 1)) fun _ m₂ hpasses₂ hreached => goes_pure ?_)
      fun _ _ _ hserved' => goes_pure ⟨rfl, hserved'⟩
  have hw : w.Records := hm.inv
  have hlater : Later w m₂.now := hpasses₁.later.trans hpasses₂.later
  refine hserved.succ hw hdate hlater fun s hs hs' => ?_
  obtain ⟨d, hd, hid⟩ := hchanged _ hs'
  have hserver : (w.hub.session s).serverId = id := (hw.registered s hs d hd).symm.trans hid
  have hmem : s ∈ m₁.state.sessionsOf id := by
    rw [hsame]
    exact List.mem_filter.mpr ⟨hs, beq_iff_eq.mpr hserver⟩
  exact (hreached s hmem).mono (Nat.le_trans hdate hpasses₁.later.date)

/-- A world in which nothing is left to do about the events that were seen. -/
def watched (k : Nat) (m : Moment ((company calls).pact me)) (r : Option Job) : Prop :=
  m.Sound ∧ r = some (.watchRegistry k) ∧ World.Served m.now k

theorem keeps_follow {e : RegistryEvent} (hw : w.Records) (hinv : w.manners.Inv)
    (hserved : w.Served k) (hdate : k + 1 ≤ w.date) (hheralds : w.Heralds k e) :
    (thenWatch (k + 1) (Hub.follow e)).Keeps (P := (company calls).pact me) (fun _ _ => True)
      (.resume w) (watched (k + 1)) := by
  obtain ⟨id, rfl, hchanged⟩ := hheralds
  have hsound : (Moment.resume w : Moment (pact calls me)).Sound := sound_resume hw
  refine (keeps_join (orderly_follow id (k + 1) (Manners.sound_resume hinv))
    (goes_follow hserved hdate hchanged hsound)).mono
      fun m r ⟨hcontinues, hpasses, hresult, hserved'⟩ => ⟨?_, hresult, hserved'⟩
  exact sound_join hcontinues.sound hpasses.sound

end LanguageHub.Briefing

/-! ## The tasks that tell settings -/

namespace LanguageHub.Briefing

open Routine Pact Company
open Following (watcher KeepsUp)

variable {calls : Nat → Prop} {me k : Nat} {w w' : World} {m : Machine Job Hub} {h : Hub}

/-! ### Tasks -/

/-- A task ends when all are told whom it brought to run, with a job of its own or without one. -/
def goal (me : Nat) (m : Moment ((company calls).pact me)) (r : Option Job) : Prop :=
  m.Sound ∧ World.Clean m.now me ∧ ∀ job, r = some job → job.IsOwn

theorem waits_of_brings {p : Program (Option Job)} (hclean : w.Clean me) (hw : w.Records)
    (hmanners : ∀ m : Moment (Manners.pact me), m.Sound → Manners.Calm m →
      p.Keeps (fun _ _ => True) m (Manners.goal me))
    (hbrings : ∀ v : World, Later w v → Brings p (Moment.resume v : Moment (pact calls me))) :
    p.Waits (P := (company calls).pact me) w (goal me) := by
  refine Routine.waits_of_keeps (fun v => ⟨.refl _, .refl v⟩) fun v hv hrely => ?_
  have hsound : (Moment.resume v.manners : Moment (Manners.pact me)).Sound :=
    Manners.sound_resume hv.1
  refine (keeps_join (hmanners _ hsound (Manners.calm_resume _)) (hbrings v hrely.2.later
    (sound_resume hv.2) (hclean.trust hw hrely.2))).mono fun m r ⟨hdone, hsettings⟩ => ?_
  exact ⟨sound_join hdone.1 hsettings.1, hsettings.2, hdone.2⟩

theorem waits_job {job : Job} (hjob : job.IsOwn) (hclean : w.Clean me) (hw : w.Records) :
    job.program.Waits (P := (company calls).pact me) w (goal me) :=
  waits_of_brings hclean hw (fun _ hm _ => Manners.keeps_job hjob hm)
    fun _ _ => brings_of_muting (muting_job hjob)

theorem waits_call {call : Call} (slot : Nat) (hme : calls me) (hcall : call.IsThroughSessions)
    (hthere : w.hub.HasSessionFor call) (hclean : w.Clean me) (hw : w.Records) :
    (Job.call slot call).program.Waits (P := (company calls).pact me) w (goal me) := by
  refine waits_of_brings hclean hw
    (fun _ hm hcalm => Manners.keeps_background slot hcall hm hcalm) fun v hlater => ?_
  have hthere' : v.hub.HasSessionFor call := fun s hs =>
    Nat.lt_of_lt_of_le (hthere s hs) hlater.sessions
  refine (brings_call hme hcall hthere').bind fun outcome m' => brings_of_muting ?_
  exact .bind (muting_modify fun _ => .of_eq rfl rfl rfl rfl rfl rfl) fun _ => muting_pure _

/-- What is left of the watcher: it waits for the next event, or it does what the last one asks
for. -/
inductive Watches (calls : Nat → Prop) (w : World) : Program (Option Job) → Prop where
  | waits (k : Nat) (hserved : w.Served k) : Watches calls w (Job.program (.watchRegistry k))
  | acts {p : Program (Option Job)} (k : Nat)
      (hwaits : p.Waits (P := (company calls).pact watcher) w (watched k))
      (hends : p.EndsWith (· = some (.watchRegistry k))) : Watches calls w p

theorem Watches.served {p : Program (Option Job)} (h : Watches calls w p)
    (hwaits : p = Job.program (.watchRegistry k)) : w.Served k := by
  cases h with
  | waits k' hserved => exact cursor_inj hwaits ▸ hserved
  | acts k' _ hends => exact absurd hwaits (ne_watch_of_endsWith hends k)

theorem waits_later {p : Program (Option Job)}
    {Q : Moment ((company calls).pact me) → Option Job → Prop}
    (h : p.Waits (P := (company calls).pact me) w Q) (hrely : (company calls).rely me w w') :
    p.Waits (P := (company calls).pact me) w' Q := fun v hv hrely' =>
  h v hv ((company calls).rely_trans hrely hrely')

/-- A task is where it may be. -/
def IsPlaced (calls : Nat → Prop) (w : World) (t : RunningTask Job Hub) : Prop :=
  if t.id = watcher then Watches calls w t.rest
  else t.rest.Waits (P := (company calls).pact t.id) w (goal t.id)

theorem isPlaced_watcher {t : RunningTask Job Hub} (hid : t.id = watcher) :
    IsPlaced calls w t ↔ Watches calls w t.rest := by
  rw [IsPlaced, if_pos hid]

theorem isPlaced_of_ne {t : RunningTask Job Hub} (hid : t.id ≠ watcher) :
    IsPlaced calls w t ↔ t.rest.Waits (P := (company calls).pact t.id) w (goal t.id) := by
  rw [IsPlaced, if_neg hid]

theorem IsPlaced.later {t : RunningTask Job Hub} (ht : IsPlaced calls w t) (hw : w.Records)
    (hrely : (company calls).rely t.id w w') : IsPlaced calls w' t := by
  by_cases hid : t.id = watcher
  · rw [isPlaced_watcher hid] at ht ⊢
    obtain ⟨id, rest⟩ := t
    obtain rfl : id = watcher := hid
    cases ht with
    | waits k hserved => exact .waits k (hserved.later hw hrely.2.later)
    | acts k hwaits hends => exact .acts k (waits_later hwaits hrely) hends
  · rw [isPlaced_of_ne hid] at ht ⊢
    exact waits_later ht hrely

/-! ### The crew -/

structure Crew (calls : Nat → Prop) (m : Machine Job Hub) (w : World) : Prop where
  state : w.hub = m.state
  inv : (company calls).inv w
  tidy : m.Tidy
  begun : watcher < m.nextTask
  placed : ∀ t ∈ m.tasks, IsPlaced calls w t
  /-- Whoever has not been told yet is waited for by a call. -/
  debts : ∀ s c id x, w.began s c id x →
    calls id ∧ id < m.nextTask ∧ (w.Briefed c x ∨ ∃ t ∈ m.tasks, t.id = id)

theorem Crew.records (hcrew : Crew calls m w) : w.Records := hcrew.inv.2

/-- A task that was not there yet has brought no session to run. -/
theorem Crew.clean (hcrew : Crew calls m w) {id : Nat} (hid : m.nextTask ≤ id) : w.Clean id :=
  fun s c x hbegan =>
    absurd (hcrew.debts s c id x hbegan).2.1 (Nat.not_lt_of_le hid)

/-! #### Legs -/

variable {place : Nat} {t : RunningTask Job Hub}
  {goal' : ∀ id, Moment ((company calls).pact id) → Option Job → Prop}

/-- Whoever was there before a leg is still there, or has ended. -/
theorem exists_advance {id : Nat} (ht : m.tasks[place]? = some t)
    (hthere : ∃ t' ∈ m.tasks, t'.id = id) :
    (∃ t' ∈ (m.advance Job.program place).tasks, t'.id = id) ∨
      id = t.id ∧ (t.rest.resumed.legFrom m.state []).result? = some none := by
  obtain ⟨t', ht', rfl⟩ := hthere
  by_cases hid : t'.id = t.id
  · by_cases hended : (t.rest.resumed.legFrom m.state []).result? = some none
    · exact .inr ⟨hid, hended⟩
    · rw [hid]
      exact .inl (Machine.exists_mem_advance Job.program ht hended)
  · exact .inl ⟨t', Machine.mem_advance ht ht' hid, rfl⟩

/-- After a leg the tasks are where they may be, if the one that made it is, and tells what it has
to tell before it ends. -/
theorem Crew.advance (hcrew : Crew calls m w) (ht : m.tasks[place]? = some t)
    (hready : t.rest.isReady m.state = true) (hadv : Advances (company calls) goal' t m w w')
    (hnext : ∀ t' ∈ Machine.following Job.program t.id
      (t.rest.resumed.legFrom m.state []).rest, IsPlaced calls w' t')
    (hended : (t.rest.resumed.legFrom m.state []).result? = some none → w'.Clean t.id) :
    Crew calls (m.advance Job.program place) w' := by
  have hmem := List.mem_of_getElem? ht
  have hissued := hcrew.tidy.issued t hmem
  have hpromise : Promise calls t.id w w' := hadv.guarantee.2
  have hrecords : w'.Records := hadv.inv.2
  have hissued' : ∀ s c id x, w'.began s c id x → id < m.nextTask := fun s c id x hbegan =>
    (hpromise.began s c id x hbegan).elim (fun hbefore => (hcrew.debts s c id x hbefore).2.1)
      fun hnew => hnew.1 ▸ hissued
  constructor
  case state => exact hadv.state.trans (Machine.state_advance ht hready).symm
  case inv => exact hadv.inv
  case tidy => exact hcrew.tidy.advance place
  case begun => exact Machine.nextTask_advance place hcrew.begun
  case placed =>
    refine hcrew.tidy.forall_mem_advance ht hready (fun t' ht' hne => ?_) hnext
      fun job hjob id hid => ?_
    · exact (hcrew.placed t' ht').later hcrew.records
        ((company calls).rely_of_guarantee hne trivial hcrew.inv hadv.inv hadv.guarantee)
    · have hne : id ≠ watcher := Nat.ne_of_gt (Nat.lt_of_lt_of_le hcrew.begun hid)
      refine (isPlaced_of_ne hne).mpr (waits_job (hadv.jobs job hjob) ?_ hrecords)
      exact fun s c x hbegan => absurd (hissued' s c id x hbegan) (Nat.not_lt_of_le hid)
  case debts =>
    intro s c id x hbegan
    -- Whoever has ended has told it.
    have hpaid : (∃ t' ∈ m.tasks, t'.id = id) → w'.Briefed c x ∨
        ∃ t' ∈ (m.advance Job.program place).tasks, t'.id = id := fun hthere =>
      (exists_advance ht hthere).elim .inr fun ⟨hid, hover⟩ => .inl (by
        subst hid
        exact hended hover s c x hbegan)
    refine ⟨?_, Machine.nextTask_advance place (hissued' s c id x hbegan), ?_⟩
    · exact (hpromise.began s c id x hbegan).elim (fun hbefore => (hcrew.debts s c id x hbefore).1)
        fun hnew => hnew.1 ▸ hnew.2
    · rcases hpromise.began s c id x hbegan with hbefore | ⟨rfl, -⟩
      · exact (hcrew.debts s c id x hbefore).2.2.elim (fun hbriefed => .inl
          (hpromise.later.briefed (hcrew.records.known s c id x hbefore) hbriefed)) hpaid
      · exact hpaid ⟨t, hmem, rfl⟩

/-- What follows a leg of the watcher is where it may be. -/
theorem placed_watcher (hid : t.id = watcher)
    (hadv : Advances (company calls) (fun _ => watched k) t m w w')
    (hends : (t.rest.resumed.legFrom m.state []).rest.EndsWith (· = some (.watchRegistry k))) :
    ∀ t' ∈ Machine.following Job.program t.id (t.rest.resumed.legFrom m.state []).rest,
      IsPlaced calls w' t' := by
  intro t' ht'
  rw [isPlaced_watcher ((Machine.id_following ht').trans hid)]
  obtain ⟨id, rest⟩ := t
  obtain rfl : id = watcher := hid
  unfold Machine.following at ht'
  split at ht'
  · cases ht'
  · rename_i job hdone
    rw [List.mem_singleton.mp ht']
    obtain ⟨m', -, rfl, -, hjob, hserved⟩ := hadv.ended _ (congrArg Routine.result? hdone)
    obtain rfl := Option.some.inj hjob
    exact .waits k hserved
  · rename_i hnone hsome
    rw [List.mem_singleton.mp ht']
    refine .acts k (hadv.waits ?_) hends
    cases hresult : (rest.resumed.legFrom m.state []).result? with
    | none => rfl
    | some r =>
      have hdone := Stage.rest_of_result? hresult
      cases r with
      | none => exact absurd hdone hnone
      | some job => exact absurd hdone (hsome job)

theorem Crew.advance_watcher (hcrew : Crew calls m w) (ht : m.tasks[place]? = some t)
    (hready : t.rest.isReady m.state = true) (hid : t.id = watcher)
    {p : Program (Option Job)} (hleg : t.rest.resumed.legFrom m.state [] = p.legFrom m.state [])
    (hkeeps : p.Keeps (P := (company calls).pact t.id) (fun _ _ => True) (.resume w) (watched k))
    (hends : p.EndsWith (· = some (.watchRegistry k))) :
    ∃ w', Crew calls (m.advance Job.program place) w' := by
  obtain ⟨w', hadv⟩ : ∃ w', Advances (company calls) (fun _ => watched k) t m w w' :=
    advances_of_keeps hcrew.state hkeeps hleg (passes_of_forall (fun _ _ => trivial) _ _)
      fun _ _ h => h.1
  refine ⟨w', hcrew.advance ht hready hadv (placed_watcher hid hadv ?_) fun hover => ?_⟩
  · rw [hleg]
    exact hends.legFrom m.state []
  · obtain ⟨m', -, -, -, hjob, -⟩ := hadv.ended _ hover
    cases hjob

/-- Unless it is behind, the watcher sees to the next event. -/
theorem Crew.watch (hcrew : Crew calls m w) (hkeeps : KeepsUp m)
    (ht : m.tasks[place]? = some t) (hready : t.rest.isReady m.state = true)
    (hid : t.id = watcher) : ∃ w', Crew calls (m.advance Job.program place) w' := by
  obtain ⟨id, rest⟩ := t
  obtain rfl : id = watcher := hid
  have hmem := List.mem_of_getElem? ht
  have hplaced : Watches calls w rest := (isPlaced_watcher rfl).mp (hcrew.placed _ hmem)
  cases hplaced with
  | waits k hserved =>
    have hw := hcrew.records
    have hstate : w.hub = m.state := hcrew.state
    have hkept : w.hub.registry.events.oldest ≤ k := hstate ▸ hkeeps _ hmem rfl k rfl
    have hreceive := Broadcast.receive_of_kept hkept
    cases hahead : w.hub.registry.events.ahead k with
    | nil =>
      have hnews : ((m.state.registry.events.receive k).1 != .empty) = true := hready
      rw [← hstate, hreceive, hahead] at hnews
      simp at hnews
    | cons e rest =>
      rw [hahead] at hreceive
      refine hcrew.advance_watcher ht hready rfl (p := thenWatch (k + 1) (Hub.follow e)) ?_
        (keeps_follow hw hcrew.inv.1 hserved (Broadcast.lt_sent_of_ahead hw.sound hkept hahead)
          (hw.heralds k e rest hserved.since hkept hahead)) (endsWith_thenWatch _ _)
      rw [legFrom_watch, ← hstate, hreceive]
      rfl
  | acts k hwaits hends =>
    have hready' : rest.isReady w.hub = true := by
      rw [hcrew.state]
      exact hready
    exact hcrew.advance_watcher ht hready rfl rfl
      (hwaits w hcrew.inv ⟨.refl _, .refl w⟩ hready') hends.resumed

theorem Crew.goOn (hcrew : Crew calls m w) (hkeeps : KeepsUp m) (place : Nat) :
    ∃ w', Crew calls (m.advance Job.program place) w' := by
  cases ht : m.tasks[place]? with
  | none => exact ⟨w, by rwa [Machine.advance_of_none ht]⟩
  | some t =>
    by_cases hready : t.rest.isReady m.state = true
    · by_cases hid : t.id = watcher
      · exact hcrew.watch hkeeps ht hready hid
      · have hwaits := (isPlaced_of_ne hid).mp (hcrew.placed t (List.mem_of_getElem? ht))
        have hready' : t.rest.isReady w.hub = true := by rwa [hcrew.state]
        have hkeeps' := hwaits w hcrew.inv ⟨.refl _, .refl w⟩ hready'
        obtain ⟨w', hadv⟩ : ∃ w', Advances (company calls) goal t m w w' :=
          advances_of_keeps hcrew.state hkeeps' rfl (passes_of_forall (fun _ _ => trivial) _ _)
            fun _ _ h => h.1
        have hrecords : w'.Records := hadv.inv.2
        refine ⟨w', hcrew.advance ht hready hadv (fun t' ht' => ?_) fun hover => ?_⟩
        · refine (isPlaced_of_ne (Machine.id_following ht' ▸ hid)).mpr
            (hadv.following (fun job hjob => ?_) ht')
          obtain ⟨m', -, rfl, hgoal⟩ := hadv.ended _ hjob
          exact waits_job (hgoal.2.2 job rfl) hgoal.2.1 hrecords
        · obtain ⟨m', -, rfl, hgoal⟩ := hadv.ended _ hover
          exact hgoal.2.1
    · exact ⟨w, by rwa [Machine.advance_of_not_ready ht hready]⟩

end LanguageHub.Briefing
