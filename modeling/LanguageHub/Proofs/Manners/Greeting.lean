import LanguageHub.Proofs.Manners.Speaking

/-!
# Greeting a server

Whoever starts a session opens a link, on which nobody has said anything, makes a client on it and
introduces the client there, while nobody else speaks. The answer that the task takes has come
before its turn; if it agrees the task says that the introduction is over.
-/

namespace LanguageHub

namespace Hub

/-- The hub with one more link. -/
abbrev addLink (h : Hub) (added : OpenedLink) : Hub := { h with links := h.links ++ [added] }

/-- The hub with one more client. -/
abbrev addClient (h : Hub) (added : Client) : Hub := { h with clients := h.clients ++ [added] }

theorem client_addClient (h : Hub) (added : Client) (c : Nat) :
    (h.addClient added).client c = if c = h.clients.length then added else h.client c :=
  getD_append_singleton ..

theorem words_addLink (h : Hub) {added : OpenedLink} (hwords : added.link.words = []) (l : Nat) :
    ((h.addLink added).link l).words = (h.link l).words := by
  rw [link_eq, link_eq, getD_append_singleton]
  split
  · rename_i hl
    rw [hl, List.getElem?_eq_none (Nat.le_refl _)]
    exact hwords
  · rfl

theorem Answers.addClient {h : Hub} {c : Nat} {r : Request} (hr : h.Answers c r)
    (added : Client) : (h.addClient added).Answers c r := by
  have hclient : (h.addClient added).client c = h.client c :=
    (client_addClient ..).trans (if_neg (Nat.ne_of_lt hr.known))
  have hsaid : (h.addClient added).said c = h.said c :=
    congrArg (fun x : Client => (h.link x.link).words) hclient
  refine ⟨hsaid.trans hr.1, ?_⟩
  rw [hclient]
  exact hr.2

end Hub

namespace Manners

open Routine Pact Client

variable {me c l s : Nat} {w w' : World} {h : Hub} {m : Moment (pact me)}

/-! ## Words of the greeting -/

namespace World

/-- A client of the task that has not spoken yet. -/
def Blank (w : World) (me c : Nat) : Prop := w.Fresh me c ∧ w.hub.said c = []

/-- A client of the task that has introduced itself with this request. -/
structure Introduced (w : World) (me c : Nat) (r : Request) : Prop where
  fresh : w.Fresh me c
  method : r.method = "initialize"
  said : w.hub.said c = [.request r]

end World

theorem fresh_hears (hears : Hears me w w') (h : w.Fresh me c) :
    w'.Fresh me c ∧ w'.hub.said c = w.hub.said c := hears.fresh c me rfl h

theorem World.Blank.later (h : w.Blank me c) (hears : Hears me w w') : w'.Blank me c := by
  obtain ⟨hfresh, hsaid⟩ := fresh_hears hears h.1
  exact ⟨hfresh, hsaid.trans h.2⟩

theorem World.Introduced.later {r : Request} (h : w.Introduced me c r) (hears : Hears me w w') :
    w'.Introduced me c r := by
  obtain ⟨hfresh, hsaid⟩ := fresh_hears hears h.fresh
  exact ⟨hfresh, h.method, hsaid.trans h.said⟩

theorem World.Ready.later (h : w.Ready me c) (hears : Hears me w w') : w'.Ready me c := by
  obtain ⟨hfresh, r, hmethod, hsaid, hanswered⟩ := h
  obtain ⟨hfresh', hsaid'⟩ := fresh_hears hears hfresh
  exact ⟨hfresh', r, hmethod, hsaid'.trans hsaid, hears.answered c r hanswered⟩

/-- A client that says something has not run for that. -/
theorem fresh_say (hw : w.Inv) (h : w.Fresh me c) (link : Link) :
    (w.move me (w.hub.onLink (w.hub.client c).link fun _ => link)).Fresh me c ∧
      (w.hub.onLink (w.hub.client c).link fun _ => link).said c = link.words := by
  have hlinked := hw.linked c h.known
  refine ⟨⟨h.known, ?_, fun hran => h.ran (hran.elim id (hw.spoke c))⟩, ?_⟩
  · refine Eq.trans (if_neg fun hnew => ?_) h.opener
    exact absurd hlinked (Nat.not_lt_of_le hnew.1)
  · exact congrArg Link.words ((Hub.link_onLink ..).trans (if_pos ⟨rfl, hlinked⟩))

/-- A word of the greeting is written on a client of the task. -/
theorem leads_greeting {message : Message} {J : World → Prop}
    (hlater : ∀ w w', J w → Hears me w w' → J w')
    (hfresh : ∀ w, J w → w.Fresh me c)
    (hsay : ∀ w, J w → w.MaySay me c message) (hJ : J m.now) :
    Leads (write c message) m fun r w => r = .ok () →
      ∃ w₁, J w₁ ∧ w.Fresh me c ∧ w.hub.said c = w₁.hub.said c ++ [message] ∧
        ∀ q, w₁.answered c q → w.answered c q := by
  intro hm hcalm
  have henter := continues_enter hm (.writer c)
  refine (keeps_write (fun w w' h hrely => hlater w w' h (hears_of_rely hrely))
    (fun w _ h => hsay w h) hm (hlater _ _ hJ henter.hears)).mono fun m' r htried => ?_
  refine ⟨htried.sound, htried.calm hcalm, fun hok => ?_⟩
  obtain ⟨w₁, link, hw₁, hJ₁, hwords, hears⟩ := htried.said.resolve_right fun h => h.1 hok
  obtain ⟨hfresh₁, hsaid₁⟩ := fresh_say hw₁ (hfresh w₁ hJ₁) link
  obtain ⟨hfresh', hsaid'⟩ := fresh_hears hears hfresh₁
  exact ⟨w₁, hJ₁, hfresh', hsaid'.trans (hsaid₁.trans hwords), fun q hq =>
    hears.answered c q (.inl hq)⟩

/-! ## The introduction -/

/-- The client has introduced itself, and whatever answer the task has got counts if it agrees. -/
def Heard (me c : Nat) (answer : Except HubError Json) (w : World) : Prop :=
  ∀ v, answer = .ok v → ∃ r, w.Introduced me c r ∧
    ((ServerCapabilities.ofInitializeResult? v).isSome = true → w.answered c r)

/-- The answer is taken in the turn in which it is found. -/
theorem leads_collect {r : Request} (hsaid : w.Introduced me c r) :
    Leads (modifyGet (Hub.fromClient c (·.collect r.id))) (Moment.resume w : Moment (pact me))
      fun answer w' => w'.Introduced me c r ∧
        ∀ a : Response, answer = some a → a.Agrees → w'.answered c r := by
  intro hm hcalm _
  have hw : w.Inv := hm.inv
  -- What is taken away here a quiet change would have to leave to a client that has not run.
  have hquiet : Quiet (fun c t => w.owner c t = me) (fun _ => True) w.hub
      (w.hub.fromClient c (·.collect r.id)).2 :=
    .fromClient rfl (Nat.le_refl _) fun hnot => absurd trivial hnot
  have hears := hquiet.hears hw
  have hsound : ((Moment.resume w : Moment (pact me)).set
      (w.hub.fromClient c (·.collect r.id)).2).Sound :=
    sound_set hm (hquiet.acts hw) (fun _ _ hr => .inr (.inr hr))
      fun _ _ hspeaks => hquiet.speaks.mpr hspeaks
  have hstill : Calm ((Moment.resume w : Moment (pact me)).set
      (w.hub.fromClient c (·.collect r.id)).2) := fun d hran =>
    hran.elim id fun hspeaks => hw.spoke d (hquiet.speaks.mp hspeaks)
  have hgone : ¬ (w.hub.fromClient c (·.collect r.id)).2.Answers c r := by
    rintro ⟨-, answer, hmem, -⟩
    rw [Hub.fromClient, Hub.client_onClient, if_pos ⟨rfl, hsaid.fresh.known⟩] at hmem
    simp [collect] at hmem
  change _ ∧ _ ∧ _
  refine ⟨hsound, hstill, hsaid.later hears, fun a hlookup hagrees => ?_⟩
  have hmem : (r.id, a) ∈ (w.hub.client c).answers := mem_of_lookup hlookup
  exact .inr ⟨⟨hsaid.said, a, hmem, hagrees⟩, hgone⟩

theorem leads_awaitAnswer {r : Request} (method : String) (timeout : Duration)
    (h : World.Introduced m.now me c r) :
    Leads (awaitAnswer c r.id method none timeout) m (Heard me c) := by
  refine .bind (orderly_quietGet fun _ _ => .of_eq rfl rfl rfl rfl).leads fun deadline m₁ hears₁ =>
    leads_waitUntil fun w hw hears => leads_get ?_
  have hsaid : w.Introduced me c r := h.later (hears₁.trans hears)
  rw [if_neg (by exact Bool.false_ne_true)]
  split
  · refine (leads_collect hsaid).bind fun answer m₂ hcollected => ?_
    cases answer with
    | none => exact leads_pure nofun
    | some a => exact leads_pure fun v hv => ⟨r, hcollected.1, fun hsome =>
        hcollected.2 a rfl ⟨v, hv, hsome⟩⟩
  · exact .bind (orderly_of_abides (abides_forget _)).leads fun _ _ _ => leads_pure nofun

theorem leads_introduction (params : Json) (timeout : Duration) (h : World.Blank m.now me c) :
    Leads (request c "initialize" params none timeout) m (Heard me c) := by
  refine leads_get ?_
  split
  · exact leads_pure nofun
  rw [if_neg (by exact Bool.false_ne_true)]
  refine .bind (orderly_quietGet fun _ _ => quiet_takeId).leads fun id m₁ hears₁ =>
    .bind (orderly_of_abides abides_wait).leads fun _ m₂ hears₂ =>
      .bind (orderly_quietGet fun _ _ => quiet_register id).leads fun registered m₃ hears₃ => ?_
  split
  · have hblank : World.Blank m₃.now me c := h.later (hears₁.trans (hears₂.trans hears₃))
    refine (leads_greeting (J := fun w => w.Blank me c) (fun _ _ h => h.later) (fun _ h => h.1)
      (fun _ h => .introduction _ h.1 h.2 rfl) hblank).bind fun written m₄ hsaid => ?_
    cases written with
    | error e =>
      exact .bind (orderly_of_abides (abides_forget _)).leads fun _ _ _ => leads_pure nofun
    | ok =>
      obtain ⟨w₁, hblank₁, hfresh, hsaid, -⟩ := hsaid rfl
      rw [hblank₁.2] at hsaid
      exact leads_awaitAnswer (r := ⟨_, id, _, params⟩) _ _ ⟨hfresh, rfl, hsaid⟩
  · exact leads_pure nofun

theorem leads_shakeHands (s : Nat) (folders : List WorkspaceFolder)
    (h : World.Blank m.now me c) :
    Leads (Session.shakeHands s c folders) m fun result w => ∀ capabilities,
      result = .ok capabilities → ∃ r, w.Introduced me c r ∧ w.answered c r := by
  refine leads_get ((leads_introduction _ _ h).bind fun answer m' hheard => leads_pure ?_)
  intro capabilities hresult
  cases answer with
  | error e => cases hresult
  | ok v =>
    obtain ⟨r, hsaid, hanswered⟩ := hheard v rfl
    refine ⟨r, hsaid, hanswered ?_⟩
    cases hread : ServerCapabilities.ofInitializeResult? v with
    | some capabilities => rfl
    | none => simp [Except.bind, Except.mapError, hread] at hresult

/-! ## The word that the introduction is over -/

theorem leads_initialized {r : Request} (hsaid : World.Introduced m.now me c r)
    (hanswered : World.answered m.now c r) :
    Leads (notify c "initialized" (.mkObj [])) m fun told w => told = .ok () → w.Ready me c := by
  refine leads_gets ?_
  split
  · refine (leads_greeting (J := fun w => w.Introduced me c r ∧ w.answered c r)
      (fun _ _ h hears => ⟨h.1.later hears, hears.answered c r h.2⟩) (fun _ h => h.1.fresh)
      (fun _ h => .introduced r h.1.fresh h.1.said h.2) ⟨hsaid, hanswered⟩).mono ?_
    intro told w h htold
    obtain ⟨w₁, ⟨hsaid₁, hanswered₁⟩, hfresh, hsaid, hkept⟩ := h htold
    rw [hsaid₁.said] at hsaid
    exact ⟨hfresh, r, hsaid₁.method, hsaid, hkept r hanswered₁⟩
  · exact leads_pure nofun

/-! ## Links and clients -/

/-- A link of the task on which no client is yet. -/
structure World.Opened (w : World) (me l : Nat) : Prop where
  known : l < w.hub.links.length
  opener : w.opener l = me
  unused : w.hub.Unused l

theorem World.Opened.later (h : w.Opened me l) (hears : Hears me w w') : w'.Opened me l where
  known := Nat.lt_of_lt_of_le h.known hears.links
  opener := (hears.opener l h.known).trans h.opener
  unused := hears.unused l h.known h.opener h.unused

theorem minds_addLink (hw : w.Inv) {added : OpenedLink} (hwords : added.link.words = []) :
    Minds me w (w.hub.addLink added) := by
  have hsaid : ∀ c, (w.hub.addLink added).said c = w.hub.said c := fun _ =>
    w.hub.words_addLink hwords _
  refine ⟨⟨Nat.le_refl _, ?_, fun _ _ => rfl, fun c hc hc' => absurd hc' (Nat.not_lt_of_le hc),
    fun l _ => w.hub.words_addLink hwords l, fun c _ => .inl (hsaid c), fun _ _ => .inl,
    hw.single, fun _ => .inl, fun _ => Nat.le_refl _, fun _ => .refl _⟩, rfl, fun c _ => hsaid c,
    fun c r hr => .inl ⟨(hsaid c).trans hr.1, hr.2⟩, fun _ => .inl rfl⟩
  rw [List.length_append]
  exact Nat.le_add_right ..

theorem opened_addLink (hw : w.Inv) (added : OpenedLink) :
    (w.move me (w.hub.addLink added)).Opened me w.hub.links.length := by
  have hknown : w.hub.links.length < (w.hub.links ++ [added]).length := by
    rw [List.length_append]
    exact Nat.lt_succ_self _
  exact ⟨hknown, if_pos ⟨Nat.le_refl _, hknown⟩, fun c hc heq =>
    absurd heq (Nat.ne_of_lt (hw.linked c hc))⟩

theorem leads_openLink (serverId root : String) (launch : Launch) :
    Leads (modifyGet (Session.openLink serverId root launch)) m fun result w =>
      ∀ l, result = .ok l → w.Opened me l := by
  intro hm hcalm _
  cases launch with
  | refused reason =>
    have hsame := continues_quiet hm (.same _)
    exact ⟨hsame.sound, hsame.calm hcalm, nofun⟩
  | mute =>
    have hsame := continues_quiet hm (.same _)
    exact ⟨hsame.sound, hsame.calm hcalm, nofun⟩
  | opened readFault writeFault =>
    let added : OpenedLink := ⟨serverId, root, { Link.fresh with readFault, writeFault }⟩
    have hadded : added.link.words = [] := rfl
    have hminds : Minds me m.now _ := minds_addLink hm.inv hadded
    have hadd := continues_set hm hminds (.inr fun _ => rfl)
    refine ⟨hadd.sound, hadd.calm hcalm, fun l hl => ?_⟩
    cases hl
    exact opened_addLink hm.inv added

theorem abides_reach (connection : Connection) (id root : String) :
    (Session.reach connection id root).Abides (custom me) w := by
  unfold Session.reach
  split
  · refine abides_waitUntil fun w₁ _ _ _ => abides_quietGet (fun w₂ _ _ => ?_) fun launch =>
      abides_pure launch
    unfold Session.takeLaunch
    split <;> exact .of_eq rfl rfl rfl rfl
  · split
    · exact abides_pure _
    refine abides_get fun w' _ _ => ?_
    split
    · exact abides_pure _
    · exact .bind (abides_sleep _) fun _ => abides_pure _
  · split
    · exact abides_pure _
    · exact abides_get fun w' _ _ => abides_pure _

theorem leads_openConnection (s : Nat) :
    Leads (Session.openConnection s) m fun result w => ∀ l, result = .ok l → w.Opened me l :=
  leads_get (.bind (orderly_of_abides (abides_reach _ _ _)).leads fun launch _ _ =>
    leads_openLink _ _ launch)

theorem acts_addClient (hw : w.Inv) {added : Client} (hopened : w.Opened me added.link) :
    Acts me w (w.hub.addClient added) := by
  have hclient : ∀ c < w.hub.clients.length, (w.hub.addClient added).client c = w.hub.client c :=
    fun c hc => (Hub.client_addClient ..).trans (if_neg (Nat.ne_of_lt hc))
  refine ⟨?_, Nat.le_refl _, fun c hc => by rw [hclient c hc], fun c hc hc' => ?_, fun _ _ => rfl,
    fun c hc => .inl ?_, fun _ _ => .inl, hw.single, fun _ => .inl, fun c => ?_, fun _ => .refl _⟩
  · rw [List.length_append]
    exact Nat.le_add_right ..
  · obtain rfl : c = w.hub.clients.length := by
      rw [List.length_append, List.length_singleton] at hc'
      exact Nat.le_antisymm (Nat.le_of_lt_succ hc') hc
    rw [Hub.client_addClient, if_pos rfl]
    exact ⟨rfl, hopened.known, hopened.opener, hopened.unused⟩
  · rw [Hub.said, Hub.linkOf, hclient c hc]
    rfl
  · rw [Hub.client_addClient]
    split
    · rename_i hc
      rw [hc, Hub.client, List.getElem?_eq_none (Nat.le_refl _)]
      exact Nat.zero_le _
    · exact Nat.le_refl _

theorem blank_addClient (hw : w.Inv) {added : Client} (hopened : w.Opened me added.link) :
    (w.move me (w.hub.addClient added)).Blank me w.hub.clients.length := by
  have hlink : ((w.hub.addClient added).client w.hub.clients.length).link = added.link :=
    congrArg Client.link ((Hub.client_addClient ..).trans (if_pos rfl))
  have hopener : (w.move me (w.hub.addClient added)).opener added.link = me :=
    (if_neg fun hnew => absurd hopened.known (Nat.not_lt_of_le hnew.1)).trans hopened.opener
  have hknown : w.hub.clients.length < (w.hub.clients ++ [added]).length := by
    rw [List.length_append]
    exact Nat.lt_succ_self _
  refine ⟨⟨hknown, (congrArg _ hlink).trans hopener, fun hran => ?_⟩, ?_⟩
  · exact Nat.lt_irrefl _ (hw.known _ (hran.elim id (hw.spoke _)))
  · exact (congrArg (fun l => (w.hub.link l).words) hlink).trans (hw.silent _ hopened.unused)

theorem leads_newClient (s : Nat) (folders : List WorkspaceFolder)
    (h : World.Opened m.now me l) :
    Leads (Session.newClient s l folders) m fun c w => w.Blank me c := by
  have hadd : Leads (modifyGet fun h : Hub => (h.clients.length, h.addClient
      (.new (h.session s).serverId (h.session s).definition folders h.options.requestTimeout l)))
      m fun c w => w.Blank me c := by
    intro hm hcalm _
    have hw : World.Inv m.now := hm.inv
    exact ⟨sound_set hm (acts_addClient hw h) (fun c r hr => .inl (hr.addClient _))
        fun _ _ hspeaks => hspeaks,
      fun c hran => hcalm c (hran.elim id (hw.spoke c)), blank_addClient hw h⟩
  exact hadd.bind fun c m₁ hblank => .bind (orderly_start (.read c) trivial).leads
    fun _ _ hears => leads_pure (hblank.later hears)

end Manners

end LanguageHub
