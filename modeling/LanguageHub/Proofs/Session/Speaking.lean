import LanguageHub.Proofs.Session.Starting
import LanguageHub.Proofs.Session.Turns

/-!
# Speaking of the document

Only a call that holds the send lock of a synchronizer of the document speaks of it. What it
says reaches the server that the session speaks with, unless the session speaks with nobody
any more. Anyone may speak of other documents.
-/

namespace LanguageHub

open Routine Pact HubMoment

namespace Scene

variable {u : String} {a : Actor} {x y z : Scene} {k tk : Nat} {turns : Bool} {content : Buffer}

/-- From `x` to `y` a call has told the server of a notice, if the session still speaks with
that server. For the document it has used synchronizer `k`. -/
structure Tells (u : String) (a : Actor) (k : Nat) (n : DocumentNotice) (x y : Scene) : Prop where
  always : x.Always y
  alone : y.alone = x.alone
  synchronizers : x.alone = true → y.synchronizers = x.synchronizers
  basis : ∀ turns content own, x.Basis a turns content own → y.Basis a turns content own
  holds : ∀ n t, (∀ c, n ≠ .writer c) → x.Holds a n t → y.Holds a n t
  turn : ∀ t, x.Holds a (.lifecycle x.session) t → TurnKept u x y
  kept : n.uri = u → CopyKept u x y k
  heard : n.uri = u → ∀ i, y.Front i → y.heard u i = x.heard u i ++ [n.message]

theorem tells_of_rely {n : DocumentNotice} (ha : a.isCall = true)
    (hx : n.uri = u → ∃ tk, x.MaySpeak u a k tk) (hrely : x.Rely u a y) (hy : y.Inv u)
    (hnobody : n.uri = u → ∀ i, ¬ y.Front i) : Tells u a k n x y where
  always := hrely.always
  alone := hrely.alone ha
  synchronizers halone := (hrely.still ha halone).synchronizers
  basis _ _ _ h := h.rely ha hrely hy
  holds _ _ _ h := hrely.holds h
  turn _ h := hrely.protected h rfl
  kept huri := by
    obtain ⟨tk, hx⟩ := hx huri
    exact (hrely.protected hx.holds (hrely.always.concerns hx.concerns)).2.2
  heard huri i hi := absurd hi (hnobody huri i)

/-- What the server has heard goes on with the notice. -/
theorem Tells.conversation {n : DocumentNotice} (h : Tells u a k n x y) (huri : n.uri = u)
    {i : Nat} (hi : y.Front i) {version next : Option Nat} {copy : Option Buffer}
    (hx : DocumentNotice.Conversation (x.heard u i) version copy)
    (hnext : n.follow version = some next) :
    DocumentNotice.Conversation (y.heard u i) next (n.copied copy) := by
  rw [h.heard huri i hi]
  exact hx.snoc hnext

variable {n : DocumentNotice} {c i t : Nat} {frames : List Outgoing} {due : Bool}

theorem MaySpeak.rely (h : x.MaySpeak u a k tk) (hrely : x.Rely u a y) : y.MaySpeak u a k tk :=
  ⟨h.isCall, hrely.always.concerns h.concerns, hrely.holds h.holds⟩

/-- What the last bytes of a message change, for who put them there. -/
theorem tells_put (hfront : ∀ i, x.Front i → i = x.linkOf c)
    (hheard : Outgoing.heard u frames = x.heard u (x.linkOf c) ++ [n.message]) :
    Tells u a k n x ((x.put (x.linkOf c) frames due).leave (.writer c) t) where
  always := (always_put ..).trans (always_leave ..)
  alone := rfl
  synchronizers _ := rfl
  basis _ _ _ h := ⟨h.alone, h.own, h.text, h.phase⟩
  holds n t' hn h :=
    Holds.leave (x := x.put (x.linkOf c) frames due) ⟨h.holder, h.issued, h.owner⟩ (hn c) t
  turn _ _ := ⟨.inl rfl, rfl, .inl rfl, fun _ h => h, .inl rfl, fun _ h => quiet_leave h⟩
  kept _ :=
    ⟨rfl, fun i (hi : (x.put (x.linkOf c) frames due).Front i) => ⟨hi.of_put, id⟩,
      fun h => ⟨h, fun _ => id⟩⟩
  heard _ i hi := by
    have hput : (x.put (x.linkOf c) frames due).Front i := hi
    obtain rfl : i = x.linkOf c := hfront i hput.of_put
    have hself : (x.put (x.linkOf c) frames due).heard u (x.linkOf c) =
        Outgoing.heard u frames := heard_put_self
    exact hself.trans hheard

/-- Whoever waits before and after it has told a server something relies on the others. -/
theorem Tells.of_rely {x₁ y₁ : Scene} (h : Tells u a k n x₁ y₁) (ha : a.isCall = true)
    (hx : x.MaySpeak u a k tk) (hbefore : x.Rely u a x₁) (hx₁ : x₁.Inv u)
    (hafter : y₁.Rely u a y) (hy : y.Inv u) : Tells u a k n x y := by
  have hx₁' : x₁.MaySpeak u a k tk := hx.rely hbefore
  have hy₁ : y₁.MaySpeak u a k tk :=
    ⟨ha, h.always.concerns hx₁'.concerns, h.holds _ _ (by simp) hx₁'.holds⟩
  have hkept := hbefore.protected hx.holds hx₁'.concerns
  have hkept' := hafter.protected hy₁.holds (hafter.always.concerns hy₁.concerns)
  have halone : y₁.alone = x.alone := h.alone.trans (hbefore.alone ha)
  refine ⟨(hbefore.always.trans h.always).trans hafter.always, (hafter.alone ha).trans halone,
    ?_, ?_, ?_, ?_, ?_, ?_⟩
  · intro hx
    rw [(hafter.still ha (halone.trans hx)).synchronizers,
      h.synchronizers ((hbefore.alone ha).trans hx), (hbefore.still ha hx).synchronizers]
  · intro turns content own hbasis
    exact (h.basis _ _ _ (hbasis.rely ha hbefore hx₁)).rely ha hafter hy
  · intro n t hn hholds
    exact hafter.holds (h.holds n t hn (hbefore.holds hholds))
  · intro t hholds
    have hholds₁ := hbefore.holds hholds
    rw [← hbefore.always.session] at hholds₁
    have hholds₂ := h.holds _ t (by simp) hholds₁
    rw [← h.always.session] at hholds₂
    exact ((hbefore.protected hholds rfl).trans (h.turn t hholds₁)).trans
      (hafter.protected hholds₂ rfl)
  · intro huri
    exact (hkept.2.2.trans (h.kept huri)).trans hkept'.2.2
  · intro huri i hi
    rw [hkept'.2.1, h.heard huri i (hkept'.2.2.front i hi).1, hkept.2.1]

end Scene

/-! ## Telling -/

variable {s : Nat} {u : String} {a : Actor} {k tk c : Nat} {n : DocumentNotice}

/-- The turn in which the call goes on still has what it held before it told something. -/
structure HubMoment.Tells (k : Nat) (n : DocumentNotice) (m m' : HubMoment s u a) : Prop where
  scene : Scene.Tells u a k n m.scene m'.scene
  origin : ∀ t, m.scene.Holds a (.lifecycle s) t → m.origin.Holds a (.lifecycle s) t →
    m'.origin.Holds a (.lifecycle s) t

theorem HubMoment.Tells.of_scene {m₁ m₁' m m' : HubMoment s u a} (h : m₁.Tells k n m₁')
    (hstart : m₁.start = m.start) (hscene : m₁.scene = m.scene) (hstart' : m'.start = m₁'.start)
    (hscene' : m'.scene = m₁'.scene) : m.Tells k n m' where
  scene := by
    rw [hscene', ← hscene]
    exact h.scene
  origin t := by
    have horigin : m₁.origin = m.origin := congrArg (World.scene s) hstart
    have horigin' : m'.origin = m₁'.origin := congrArg (World.scene s) hstart'
    rw [horigin', ← horigin, ← hscene]
    exact h.origin t

theorem HubMoment.Later.holds_origin {m m' : HubMoment s u a} (h : Later m m') {t : Nat}
    (hnow : m.scene.Holds a (.lifecycle s) t) (hthen : m.origin.Holds a (.lifecycle s) t) :
    m'.origin.Holds a (.lifecycle s) t := by
  rcases h.origin with heq | hrely
  · have hsame : m'.origin = m.origin := congrArg (World.scene s) heq
    rwa [hsame]
  · exact hrely.holds hnow

/-- The document may be told of what follows. -/
def Scene.Expects (u : String) (n : DocumentNotice) (x : Scene) : Prop :=
  ∀ i, x.Front i → ∃ version copy next,
    DocumentNotice.Conversation (x.heard u i) version copy ∧ n.follow version = some next

namespace Client

theorem neutral_tell {P : Scene → Prop} (hP : Stable P) (hc : ∀ x, P x → c < x.clients)
    (huri : n.uri ≠ u) : Neutral s u a P (tell c n) :=
  .bind hP (neutral_gets _) fun client => by
    split
    · refine neutral_write ?_ hc
      exact Bool.eq_false_iff.mpr fun habout =>
        huri ((DocumentNotice.isAbout_message u n).mp habout)
    · exact neutral_pure _

theorem keeps_tell_other {m : HubMoment s u a}
    {goal : HubMoment s u a → Except HubError Unit → Prop} (hm : m.Sound) (ha : a.isCall = true)
    (huri : n.uri ≠ u) (hspeaker : m.scene.speaker = some c)
    (hgoal : ∀ m' r, m'.Sound → m.Tells k n m' → goal m' r) :
    (tell c n).Keeps (fun _ _ => True) m goal := by
  have hc : c < m.scene.clients :=
    (Scene.Inv.wired hm.inv).spoken c ((Scene.Inv.wired hm.inv).speaker c hspeaker)
  refine neutral_tell (stable_client c) (fun _ h => h) huri m hm hc _ _ (fun _ _ _ _ => trivial)
    fun m' r hm' hlater => hgoal m' r hm' ⟨?_, fun t => hlater.holds_origin⟩
  exact Scene.tells_of_rely ha (fun h => absurd h huri) hlater.rely hm'.inv fun h => absurd h huri

theorem keeps_tell_own {m : HubMoment s u a}
    {goal : HubMoment s u a → Except HubError Unit → Prop} (hm : m.Sound) (huri : n.uri = u)
    (hspeak : m.scene.MaySpeak u a k tk) (hstarted : m.scene.state = .started)
    (hspeaker : m.scene.speaker = some c) (hexpects : m.scene.Expects u n)
    (hgoal : ∀ m' r, m'.Sound → m.Tells k n m' → goal m' r) :
    (tell c n).Keeps (fun _ _ => True) m goal := by
  have hspeaks : ∀ x : Scene, m.scene.Rely u a x → ∀ i, x.Front i →
      i = m.scene.linkOf c ∧ m.scene.isOpen c = true := by
    intro x hrely i hi
    have hkept := hrely.protected hspeak.holds (hrely.always.concerns hspeak.concerns)
    obtain ⟨-, d, hd, hopen, rfl, -⟩ := (hkept.2.2.front i hi).1
    obtain rfl : c = d := Option.some.inj (hspeaker.symm.trans hd)
    exact ⟨rfl, hopen⟩
  have hspoken := (Scene.Inv.wired hm.inv).speaker c hspeaker
  have hc : c < m.scene.clients := (Scene.Inv.wired hm.inv).spoken c hspoken
  refine keeps_bind.mpr fun _ => ?_
  obtain ⟨hm₁, hlater₁⟩ := sound_silent (h := m.state) hm rfl
  change Keeps _ (if (m.state.client c).isOpen = true then write c n.message
    else pure (.error .connectionClosed)) (m.set m.state) goal
  split
  · rename_i hopen
    have hc₁ := Nat.lt_of_lt_of_le hc hlater₁.rely.always.clients
    refine keeps_write hm₁ hc₁ (fun _ _ _ _ => trivial) (fun m' e hm' hlater hdue => ?_)
      fun m₂ m' t hm₂ hlater hnew hsaid => ?_
    · have hlater' := hlater₁.trans hlater
      refine hgoal m' _ hm' ⟨Scene.tells_of_rely hspeak.isCall (fun _ => ⟨tk, hspeak⟩)
        hlater'.rely hm'.inv fun _ => ?_, fun t => hlater'.holds_origin⟩
      intro i hi
      obtain ⟨rfl, -⟩ := hspeaks _ hlater'.rely i hi
      rw [hlater'.rely.always.linkOf c hc] at hdue
      obtain ⟨-, d, -, -, -, hworking⟩ := hi
      exact absurd (hworking.symm.trans hdue) (by simp)
    · have hlater' := hlater₁.trans hlater
      have hspeak₂ := hspeak.rely hlater'.rely
      have hlink := hlater'.rely.always.linkOf c hc
      have hkept := hlater'.rely.protected hspeak.holds hspeak₂.concerns
      have hworking : m.scene.isDue (m.scene.linkOf c) = false := by
        cases hdue : m.scene.isDue (m.scene.linkOf c) with
        | false => rfl
        | true =>
          have hdue₂ := hlater'.rely.always.isDue _ hdue
          rw [← hlink] at hdue₂
          exact absurd (hsaid.working.symm.trans hdue₂) (by simp)
      obtain ⟨version, copy, next, hconversation, hnext⟩ :=
        hexpects (m.scene.linkOf c) ⟨hstarted, c, hspeaker, hopen, rfl, hworking⟩
      have hm' : m'.Sound := by
        refine hsaid.sound hm₂ (Nat.lt_of_lt_of_le hc hlater'.rely.always.clients) fun _ =>
          ⟨⟨k, tk, hspeak₂⟩, hlater'.rely.always.spoken c hspoken, next, n.copied copy, ?_⟩
        rw [hlink, hkept.2.1]
        exact hconversation.snoc hnext
      obtain ⟨frames, due, hheard, hscene⟩ := hsaid.scene
      rw [if_pos ((DocumentNotice.isAbout_message u n).mpr huri)] at hheard
      have htells : Scene.Tells u a k n m₂.scene m'.scene := by
        rw [hscene]
        refine Scene.tells_put (fun i hi => ?_) hheard
        rw [hlink]
        exact (hspeaks _ hlater'.rely i hi).1
      refine hgoal m' _ hm' ⟨htells.of_rely hspeak.isCall hspeak hlater'.rely hm₂.inv
        (.refl u a _) hm'.inv, fun t hnow hthen => ?_⟩
      have hsame : m'.origin = m₂.origin := congrArg (World.scene s) hsaid.start
      rw [hsame]
      exact hlater'.holds_origin hnow hthen
  · rename_i hclosed
    refine hgoal _ _ hm₁ ⟨Scene.tells_of_rely hspeak.isCall (fun _ => ⟨tk, hspeak⟩) hlater₁.rely
      hm₁.inv fun _ => ?_, fun t => hlater₁.holds_origin⟩
    intro i hi
    exact hclosed (hspeaks _ hlater₁.rely i hi).2

end Client

/-- Whoever may speak of the document finds that it may be told of the notice. -/
def Scene.MayTell (u : String) (a : Actor) (k : Nat) (n : DocumentNotice) (x : Scene) : Prop :=
  n.uri = u → (∃ tk, x.MaySpeak u a k tk) ∧ x.Expects u n

theorem Client.keeps_tell {m : HubMoment s u a}
    {goal : HubMoment s u a → Except HubError Unit → Prop} (hm : m.Sound) (ha : a.isCall = true)
    (hstarted : m.scene.state = .started) (hspeaker : m.scene.speaker = some c)
    (hmay : m.scene.MayTell u a k n) (hgoal : ∀ m' r, m'.Sound → m.Tells k n m' → goal m' r) :
    (holding c (tell c n)).Keeps (fun _ _ => True) m goal := by
  have hsame : ∀ f : Client → Client, (∀ x, (f x).link = x.link) →
      (∀ x, (f x).isOpen = x.isOpen) → ∀ m' : HubMoment s u a, m'.Sound →
      scene (m'.set (m'.state.onClient c f)) = m'.scene := fun f hlink hopen m' hm' =>
    scene_set_of_outline (Hub.outline_onClient hlink hopen) (voiced_of_sound hm')
  have hhold := hsame hold (fun _ => rfl) (fun _ => rfl) m hm
  have hm₁ : (m.set (m.state.onClient c hold)).Sound := sound_of_scene (m := m) rfl rfl hhold hm
  have hgoal₁ : ∀ m' r, m'.Sound → HubMoment.Tells k n (m.set (m.state.onClient c hold)) m' →
      (pact s u a).allows m'.start m'.state (m'.state.onClient c release) →
      goal (m'.set (m'.state.onClient c release)) r := by
    intro m' r hm' htells _
    have hrelease := hsame release (fun _ => rfl) (fun _ => rfl) m' hm'
    exact hgoal _ r (sound_of_scene (m := m') rfl rfl hrelease hm')
      (htells.of_scene rfl hhold rfl hrelease)
  refine keeps_bind.mpr fun _ => keeps_ensuring ?_
  rw [← hhold] at hstarted hspeaker hmay
  by_cases huri : n.uri = u
  · obtain ⟨⟨tk, hspeak⟩, hexpects⟩ := hmay huri
    exact keeps_tell_own hm₁ huri hspeak hstarted hspeaker hexpects hgoal₁
  · exact keeps_tell_other hm₁ ha huri hspeaker hgoal₁

namespace Session

/-- The client of a session that is started. -/
theorem speaks_of_client? {m : HubMoment s u a} (h : (m.state.session s).client? = .ok c) :
    m.scene.state = .started ∧ m.scene.speaker = some c := by
  unfold client? at h
  split at h
  · rename_i r hstate hrunning
    cases h
    exact ⟨hstate, congrArg (Option.map Running.client) hrunning⟩
  · cases h

theorem not_front_of_client? {m : HubMoment s u a} {e : HubError}
    (h : (m.state.session s).client? = .error e) (i : Nat) : ¬ m.scene.Front i := by
  rintro ⟨hstarted, c, hspeaker, -⟩
  obtain ⟨r, hrunning, -⟩ := Option.map_eq_some_iff.mp hspeaker
  have hstate : (m.state.session s).state = .started := hstarted
  have hsome : (m.state.session s).running = some r := hrunning
  rw [client?, hstate, hsome] at h
  cases h

/-- A call tells the server of a notice, when the session runs. -/
theorem keeps_tell {m : HubMoment s u a} {goal : HubMoment s u a → Bool → Prop} (hm : m.Sound)
    (ha : a.isCall = true) (hmay : m.scene.MayTell u a k n)
    (hgoal : ∀ m' r, m'.Sound → m.Tells k n m' → goal m' r) :
    (tell s n).Keeps (fun _ _ => True) m goal := by
  have hscene : scene (m.set m.state) = m.scene := scene_set_of_outline rfl (voiced_of_sound hm)
  have hm₁ : (m.set m.state).Sound := sound_of_scene (m := m) rfl rfl hscene hm
  have hgoal₁ : ∀ m' r, m'.Sound → HubMoment.Tells k n (m.set m.state) m' → goal m' r :=
    fun m' r hm' htells => hgoal m' r hm' (htells.of_scene rfl hscene rfl rfl)
  rw [← hscene] at hmay
  refine keeps_get ?_
  split
  · rename_i e hclient
    refine hgoal₁ _ _ hm₁ ⟨?_, fun _ _ h => h⟩
    exact Scene.tells_of_rely ha (fun huri => (hmay huri).1) (.refl u a _) hm₁.inv
      fun _ => not_front_of_client? (m := m.set m.state) hclient
  · rename_i c hclient
    obtain ⟨hstarted, hspeaker⟩ := speaks_of_client? (m := m.set m.state) hclient
    refine keeps_bind.mpr
      (Client.keeps_tell hm₁ ha hstarted hspeaker hmay fun m' r hm' htells => ?_)
    cases r <;> exact hgoal₁ m' _ hm' htells

end Session

end LanguageHub
