import LanguageHub.Proofs.Session.Turns

/-!
# Starts

A start brings the session to its started state over a link on which nothing was said of the
document, or to its failed state. It needs the session's turn and keeps it.
-/

namespace LanguageHub

open Routine Pact HubMoment

namespace Session

variable {s : Nat} {u : String} {a : Actor} {turns : Bool} {content : Buffer} {t c : Nat}

/-! ## Connections -/

theorem neutral_takeLaunch {P : Scene → Prop} (id : String) :
    Neutral s u a P (modifyGet (takeLaunch id) : Program Launch) :=
  neutral_modifyGet fun h => by
    unfold takeLaunch
    split <;> rfl

theorem neutral_reach {P : Scene → Prop} (hP : Stable P) (connection : Connection)
    (id root : String) : Neutral s u a P (reach connection id root) := by
  cases connection with
  | factory => exact .bind hP (neutral_waitUntil _) fun _ => neutral_takeLaunch id
  | process command workingDir env =>
    unfold reach
    dsimp only
    split
    · exact neutral_pure _
    · refine .bind hP neutral_get fun h => ?_
      split
      · exact neutral_pure _
      · exact .bind hP (.bind hP (neutral_modifyGet fun _ => rfl) fun _ => neutral_waitUntil _)
          fun _ => neutral_pure _
  | socket address =>
    unfold reach
    dsimp only
    split
    · exact neutral_pure _
    · exact .bind hP neutral_get fun h => neutral_pure _

theorem reaches_openLink {F : Scene → Prop} (serverId root : String) (launch : Launch)
    (hF : ∀ x due, F x → F (x.addLink due)) :
    Reaches (Acts s u a turns content t F)
      (modifyGet (openLink serverId root launch) : Program (Except HubError Nat))
      fun r => Acts s u a turns content t fun x => F x ∧ ∀ i, r = .ok i → x.Unused i := by
  refine reaches_stepGet fun m hm hacts => ?_
  cases launch with
  | refused reason => exact steps_same hm rfl ⟨hacts.fact, by simp [openLink]⟩
  | mute => exact steps_same hm rfl ⟨hacts.fact, by simp [openLink]⟩
  | opened readFault writeFault =>
    have hout := Hub.outline_addLink (s := s) (h := m.state)
      ⟨serverId, root, { Link.fresh with readFault, writeFault }⟩ rfl
    have hscene : scene (m.set (openLink serverId root (.opened readFault writeFault) m.state).2) =
        m.scene.addLink (StreamFault.due? writeFault).isSome :=
      scene_set_eq hout rfl (voiced_of_sound hm)
    refine ⟨?_, ?_, ?_, ?_⟩
    · rw [hscene]
      exact ⟨rfl, rfl, rfl, rfl, rfl, rfl, rfl⟩
    · rw [hscene]
      exact Scene.Inv.addLink hm.inv _
    · rw [hscene]
      exact Scene.guarantee_addLink _ _
    · rw [hscene]
      refine ⟨hF _ _ hacts.fact, fun i hi => ?_⟩
      obtain rfl : m.scene.links = i := Except.ok.inj hi
      exact ⟨Nat.lt_succ_self _, fun c hc heq =>
        Nat.ne_of_lt ((Scene.Inv.wired hm.inv).links c hc) heq⟩

theorem reaches_openConnection :
    Reaches (Acts s u a turns content t fun x => x.state = .starting) (openConnection s)
      fun r => Acts s u a turns content t fun x =>
        x.state = .starting ∧ ∀ i, r = .ok i → x.Unused i := by
  have hstarting : Scene.Steady u fun x => x.state = .starting := Scene.steady_state (by simp)
  refine reaches_get (lasting_acts hstarting) fun h => ?_
  refine Reaches.weaken (P := Acts s u a turns content t fun x => x.state = .starting) ?_
    (fun m _ hm => hm.1) fun _ _ hm => hm
  refine Reaches.bind (reaches_neutral (P := fun _ => True) hstarting
    (neutral_reach stable_true _ _ _) fun _ _ _ => trivial) fun launch => ?_
  exact reaches_openLink _ _ launch fun _ _ h => h

/-! ## The client -/

theorem reaches_newClient (link : Nat) (folders : List WorkspaceFolder) :
    Reaches (Acts s u a turns content t fun x => x.state = .starting ∧ x.Unused link)
      (newClient s link folders)
      fun c => Acts s u a turns content t fun x => x.state = .starting ∧ x.Unspoken c := by
  have hsteady : ∀ c, Scene.Steady u fun x => x.state = .starting ∧ x.Unspoken c := fun c =>
    .and (Scene.steady_state (by simp)) (Scene.steady_unspoken c)
  refine Reaches.bind (reaches_stepGet (G := fun c x => x.state = .starting ∧ x.Unspoken c)
    fun m hm hacts => ?_) fun c => ?_
  · have hout := Hub.outline_addClient (s := s) (h := m.state)
      (.new (m.state.session s).serverId (m.state.session s).definition folders
        m.state.options.requestTimeout link) rfl
    have hscene : scene (m.set { m.state with clients := m.state.clients ++
        [.new (m.state.session s).serverId (m.state.session s).definition folders
          m.state.options.requestTimeout link] }) = m.scene.addClient link :=
      scene_set_eq hout rfl (voiced_of_sound hm)
    refine ⟨?_, ?_, ?_, ?_⟩
    · rw [hscene]
      exact ⟨rfl, rfl, rfl, rfl, rfl, rfl, rfl⟩
    · rw [hscene]
      exact Scene.Inv.addClient hm.inv hacts.fact.2
    · rw [hscene]
      refine Scene.guarantee_addClient hm.inv hacts.turn.now ?_
      change (m.state.client m.state.clients.length).isOpen = true
      rw [Hub.client, List.getElem?_eq_none (Nat.le_refl _)]
      rfl
    · rw [hscene]
      exact ⟨hacts.fact.1, Nat.lt_succ_self _, fun hspoken =>
        Nat.lt_irrefl _ ((Scene.Inv.wired hm.inv).spoken _ hspoken)⟩
  · refine Reaches.bind (reaches_neutral (hsteady c)
      (neutral_start (P := fun x => c < x.clients) fun _ h => h) fun _ _ h => h.2.1) fun _ => ?_
    exact reaches_pure _ fun _ h => h

/-! ## Running -/

/-- The session came to be started, and nobody has spoken of the document since. -/
def IsUp (u : String) (x : Scene) : Prop :=
  (x.state = .started ∨ x.state = .failed) ∧ x.Unheard u

theorem steady_isUp : Scene.Steady u (IsUp u) := fun x y hxy hkept hx => by
  refine ⟨?_, Scene.steady_unheard x y hxy hkept hx.2⟩
  rcases hkept.state with heq | ⟨-, hfailed⟩
  · rw [heq]
    exact hx.1
  · exact .inr hfailed

/-- The session may be started: it has a client, over whose link nothing was said. -/
structure IsReady (u : String) (c : Nat) (x : Scene) : Prop where
  state : x.state = .initializing
  client : c < x.clients
  fresh : x.Fresh u

theorem scene_speakThrough {m : HubMoment s u a} (hm : m.Sound) (c : Nat)
    (capabilities : ServerCapabilities) :
    scene (m.set (m.state.onSession s fun session =>
      { session with running := some ⟨c, capabilities⟩ })) = m.scene.speakThrough c := by
  let h := m.state.onSession s fun session => { session with running := some ⟨c, capabilities⟩ }
  have hout : h.outline s = { m.state.outline s with speaker := some c } :=
    Hub.outline_onSession (known hm)
  have howner : (World.move s a.id m.now h).owner = World.owner m.now := by
    funext n t
    exact if_neg fun hboth => Nat.lt_irrefl _ (Nat.lt_of_le_of_lt hboth.1 hboth.2)
  have hspoken : (World.move s a.id m.now h).spoken = (m.scene.speakThrough c).spoken := by
    funext d
    simp only [World.move, hout, Option.some.injEq, eq_comm (a := c)]
    rfl
  rw [scene_set, World.scene, howner, hspoken]
  exact congrArg (fun o : Outline => { m.scene.speakThrough c with toOutline := o }) hout

/-- Nobody has spoken of the document over the link of a client that is new to the session. -/
theorem fresh_speakThrough {x : Scene} (hwired : x.Wired u) (hc : x.Unspoken c) :
    (x.speakThrough c).Fresh u := by
  intro d hd
  obtain rfl : c = d := Option.some.inj hd
  by_cases hnothing : x.heard u (x.linkOf c) = []
  · exact hnothing
  · obtain ⟨e, he, hlink⟩ := hwired.voiced _ hnothing
    have heq := hwired.injective e c (hwired.spoken e he) hc.1 hlink
    exact absurd (heq ▸ he) hc.2

/-- Nobody is about to speak of the document when the session comes to be started. -/
theorem quiet_of_allows {m : HubMoment s u a} (ha : a.isCall = true) (hm : m.Sound)
    (hacts : Acts s u a turns content t (IsReady u c) m)
    (hallows : (pact s u a).allows m.start m.state (enter s .started m.state)) :
    m.scene.Quiet u := by
  have hground := hacts.known ha
  cases hturns : turns with
  | true => exact hground.quiet hturns
  | false =>
    have halone : (World.alone m.start) = false := by
      have heq : m.scene.alone = m.origin.alone := (Scene.Guarantee.alone hm.guarantee)
      exact heq.symm.trans (hground.alone.trans hturns)
    have hbefore : (m.state.session s).state ≠ .started := by
      have hstate : (m.state.session s).state = .initializing := hacts.fact.state
      simp [hstate]
    have hafter : ((enter s .started m.state).session s).state = .started :=
      congrArg Outline.state (Hub.outline_enter (known hm) .started)
    exact fun k hk => (hallows halone).started hbefore hafter k hk.1 hk.2

theorem reaches_run (ha : a.isCall = true) (c epoch : Nat) (capabilities : ServerCapabilities) :
    Reaches (Acts s u a turns content t fun x => x.state = .initializing ∧ x.Unspoken c)
      (run s c epoch capabilities)
      fun _ => Acts s u a turns content t (IsUp u) := by
  have hsteady : Scene.Steady u fun x => x.state = .initializing ∧ x.Unspoken c :=
    .and (Scene.steady_state (by simp)) (Scene.steady_unspoken c)
  have hup : Scene.Steady u fun x => IsUp u x ∧ c < x.clients :=
    .and steady_isUp fun _ _ hxy _ hc => Nat.lt_of_lt_of_le hc hxy.clients
  refine Reaches.bind (reaches_neutral (P := fun _ => True) hsteady
    (Client.neutral_onClient (fun _ => rfl) fun _ => rfl) fun _ _ _ => trivial) fun _ => ?_
  refine Reaches.bind (Q := fun _ => Acts s u a turns content t (IsReady u c))
    (reaches_step fun m hm hacts _ => ?_) fun _ => ?_
  · have hne : m.scene.state ≠ .started := by simp [hacts.fact.1]
    have hscene := scene_speakThrough hm c capabilities
    refine ⟨?_, ?_, ?_, ?_⟩
    · rw [hscene]
      exact ⟨rfl, rfl, rfl, rfl, rfl, rfl, rfl⟩
    · rw [hscene]
      exact Scene.Inv.speakThrough hm.inv hne hacts.fact.2.1
    · rw [hscene]
      exact Scene.guarantee_speakThrough hne hacts.turn.now
    · rw [hscene]
      exact ⟨hacts.fact.1, hacts.fact.2.1, fresh_speakThrough (Scene.Inv.wired hm.inv) hacts.fact.2⟩
  refine Reaches.bind (Q := fun _ => Acts s u a turns content t fun x => IsUp u x ∧ c < x.clients)
    (reaches_step fun m hm hacts hallows => ?_) fun _ => ?_
  · have hquiet := quiet_of_allows ha hm hacts hallows
    have hbare : m.scene.documents = [] :=
      (Scene.Inv.filed hm.inv).empty (.inr (.inr (.inl hacts.fact.state)))
    have hscene : scene (m.set (enter s .started m.state)) = m.scene.begin :=
      scene_set_eq (Hub.outline_enter (known hm) .started) rfl (voiced_of_sound hm)
    refine ⟨?_, ?_, ?_, ?_⟩
    · rw [hscene]
      exact ⟨rfl, rfl, rfl, rfl, rfl, rfl, rfl⟩
    · rw [hscene]
      exact Scene.Inv.begin hm.inv hacts.fact.fresh hbare hquiet
    · rw [hscene]
      exact Scene.guarantee_begin hquiet ha hacts.turn.now
    · rw [hscene]
      refine ⟨⟨.inl rfl, ?_, hquiet⟩, hacts.fact.client⟩
      change List.lookup u m.scene.documents = none
      rw [hbare]
      rfl
  refine Reaches.bind (reaches_neutral (P := fun _ => True) hup neutral_pushSettings
    fun _ _ _ => trivial) fun _ => ?_
  have hwatch : Neutral s u a (fun x => s = x.session ∧ c < x.clients)
      (Routine.start (.watchConnection s c epoch) : Program Unit) := neutral_start fun _ h => h
  refine (reaches_neutral hup hwatch fun m _ h => ⟨rfl, h.2⟩).weaken (fun _ _ h => h)
    fun _ m h => ?_
  exact ⟨h.turn, h.known, h.fact.1⟩

/-! ## Starting -/

/-- How a start turned out. -/
def Came (u : String) (r : Except HubError Unit) (x : Scene) : Prop :=
  match r with
  | .ok () => IsUp u x
  | .error _ => x.state = .failed

theorem steady_came (r : Except HubError Unit) : Scene.Steady u (Came u r) := by
  cases r with
  | ok => exact steady_isUp
  | error e => exact Scene.steady_state (by simp)

theorem reaches_giveUp {F : Scene → Prop} (hF : Scene.Steady u F) (e : HubError) :
    Reaches (Acts s u a turns content t F)
      (do
        tearDown s
        failWith s e : Program (Except HubError Unit))
      fun r => Acts s u a turns content t (Came u r) := by
  refine Reaches.bind (reaches_neutral (P := fun _ => True) hF (neutral_tearDown stable_true)
    fun _ _ _ => trivial) fun _ => ?_
  refine (reaches_failWith e).weaken (fun _ _ h => h) fun r m h => ?_
  obtain ⟨rfl, hacts⟩ := h
  exact hacts

theorem reaches_introduce (ha : a.isCall = true) (c epoch : Nat)
    (folders : List WorkspaceFolder) :
    Reaches (Acts s u a turns content t fun x => x.state = .starting ∧ x.Unspoken c)
      (introduce s c epoch folders) fun r => Acts s u a turns content t (Came u r) := by
  have hsteady : Scene.Steady u fun x => x.state = .initializing ∧ x.Unspoken c :=
    .and (Scene.steady_state (by simp)) (Scene.steady_unspoken c)
  have hP := stable_client c
  have hshake : Neutral s u a (fun x => c < x.clients) (shakeHands s c folders) :=
    .bind hP neutral_get fun h => .bind hP (Client.neutral_request hP (fun _ h => h) _ _ _ _)
      fun _ => neutral_pure _
  refine Reaches.bind
    (Q := fun _ => Acts s u a turns content t fun x => x.state = .initializing ∧ x.Unspoken c)
    (reaches_enter (by simp) (fun _ m hm h => ?_) fun _ h => ⟨rfl, h.2⟩) fun _ => ?_
  · exact (Scene.Inv.filed hm.inv).empty (.inr (.inl h.1))
  refine Reaches.bind (reaches_neutral hsteady hshake fun _ _ h => h.2.1) fun r => ?_
  cases r with
  | error e => exact reaches_giveUp hsteady e
  | ok capabilities =>
    refine Reaches.bind (reaches_neutral hsteady
      (Client.neutral_notify hP (fun _ h => h) (by decide) _) fun _ _ h => h.2.1) fun r => ?_
    cases r with
    | error e => exact reaches_giveUp hsteady e
    | ok => exact Reaches.bind (reaches_run ha c epoch capabilities) fun _ =>
        reaches_pure _ fun _ h => h

theorem steady_isBare : Scene.Steady u fun x => x.state.IsBare := fun x y _ hkept hx => by
  rcases hkept.state with heq | ⟨hstarted, -⟩
  · rw [heq]
    exact hx
  · simp [ServerState.IsBare, hstarted] at hx

/-- A start has the turn of a session without documents. -/
theorem reaches_startInTurn (ha : a.isCall = true) :
    Reaches (Acts s u a turns content t fun x => x.state.IsBare) (startInTurn s)
      fun r => Acts s u a turns content t (Came u r) := by
  have hstarting : Scene.Steady u fun x => x.state = .starting := Scene.steady_state (by simp)
  refine Reaches.bind (reaches_neutral (P := fun _ => True) steady_isBare
    (neutral_modify fun h => Hub.outline_onSession_same (fun _ => rfl) (fun _ => rfl)
      fun _ => rfl) fun _ _ _ => trivial) fun _ => ?_
  refine reaches_get (lasting_acts steady_isBare) fun h => ?_
  refine Reaches.weaken (P := Acts s u a turns content t fun x => x.state.IsBare) ?_
    (fun m _ hm => hm.1) fun _ _ hm => hm
  refine Reaches.bind (Q := fun _ => Acts s u a turns content t fun x => x.state = .starting)
    (reaches_enter (by simp) (fun _ m hm h => (Scene.Inv.filed hm.inv).empty h) fun _ _ => rfl)
    fun _ => ?_
  refine Reaches.bind reaches_openConnection fun r => ?_
  cases r with
  | error e =>
    refine (reaches_failWith e).weaken (fun _ _ h => h) fun r m h => ?_
    obtain ⟨rfl, hacts⟩ := h
    exact hacts
  | ok link =>
    have hsteady : Scene.Steady u fun x => x.state = .starting ∧ x.Unused link :=
      .and hstarting (Scene.steady_unused link)
    refine Reaches.weaken
      (P := Acts s u a turns content t fun x => x.state = .starting ∧ x.Unused link) ?_
      (fun m _ hm => ⟨hm.turn, hm.known, hm.fact.1, hm.fact.2 link rfl⟩) fun _ _ hm => hm
    refine Reaches.bind (reaches_neutral (P := fun _ => True) hsteady
      (neutral_modify fun h => Hub.outline_onSession_same (fun _ => rfl) (fun _ => rfl)
        fun _ => rfl) fun _ _ _ => trivial) fun _ => ?_
    refine Reaches.bind (reaches_neutral (P := fun _ => True) hsteady
      (.withLock stable_true (by simp) (neutral_onSession (fun _ => rfl) (fun _ => rfl)
        fun _ => rfl)) fun _ _ _ => trivial) fun _ => ?_
    refine Reaches.bind (reaches_neutral (P := fun _ => True) hsteady neutral_get
      fun _ _ _ => trivial) fun h => ?_
    refine Reaches.bind (reaches_newClient link _) fun c => ?_
    exact Reaches.ensuring (reaches_introduce ha c _ _) (fun r => lasting_acts (steady_came r))
      fun h => Hub.outline_onClient (fun _ => rfl) fun _ => rfl

end Session

end LanguageHub
