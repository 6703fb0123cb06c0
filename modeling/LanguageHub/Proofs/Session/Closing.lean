import LanguageHub.Proofs.Hub.Attaching
import LanguageHub.Proofs.Session.Sending

/-!
# Closing documents

A call that disconnects the document takes its send lock in the same turn, so that nobody
speaks of the document before the server was told that it is closed.
-/

namespace LanguageHub

open Routine Pact HubMoment

variable {s : Nat} {u v : String} {a : Actor} {k tk : Nat} {turns : Bool} {content : Buffer}

namespace Scene

variable {x y : Scene}

/-- If it is the document, it is not connected any more, but the server still has it open. -/
def Parting (u v : String) (k : Nat) (x : Scene) : Prop :=
  v = u → x.attached u ≠ some k ∧ ∀ i, x.Front i → ∃ version copy,
    DocumentNotice.Conversation (x.heard u i) (some version) copy

/-- If it is the document, the server does not have it open any more. -/
def Parted (u v : String) (k : Nat) (x : Scene) : Prop :=
  v = u → x.attached u ≠ some k ∧ ∀ i, x.Front i → x.Closed u i

theorem Parting.expects {uri : String} (h : x.Parting u v k) (hv : v = u) :
    x.Expects u (.closed uri) := fun i hi =>
  have ⟨version, copy, hconversation⟩ := (h hv).2 i hi
  ⟨some version, copy, none, hconversation, rfl⟩

theorem Parting.tells (h : x.Parting u v k) (htells : Tells u a k (.closed v) x y) :
    y.Parted u v k := by
  intro hv
  have hkept := htells.kept hv
  refine ⟨fun hattached => (h hv).1 (hkept.attached hattached).1, fun i hi => ?_⟩
  obtain ⟨version, copy, hconversation⟩ := (h hv).2 i (hkept.front i hi).1
  exact ⟨_, htells.conversation hv hi hconversation rfl⟩

theorem Parted.tidy (h : x.Parted u v k) (huri : (x.synchronizer k).uri = v) :
    x.Tidy u (.send k) := fun hconcerns _ _ hattached =>
  absurd hattached (h (huri.symm.trans hconcerns.2)).1

theorem Parted.closed (h : x.Parted u v k) (huri : (x.synchronizer k).uri = v) (hx : x.Inv u)
    (i : Nat) (hi : x.Front i) (hnone : x.attached u = none)
    (hquiet : (x.leave (.send k) tk).Quiet u) : x.Closed u i := by
  by_cases hv : v = u
  · exact (h hv).2 i hi
  · refine hx.closed i hi hnone (quiet_of_quiet_leave (fun k' heq hconcerns => ?_) hquiet)
    obtain rfl := LockName.send.inj heq
    exact hv (huri.symm.trans hconcerns.2)

/-- When calls take turns the send lock of the document is free for a call that comes. -/
theorem maySpeak_enter (hx : x.Inv u) (ha : a.isCall = true) (hground : x.Ground u a turns content)
    (hk : x.attached u = some k) (hturns : turns = true) :
    (x.enter (.send k) a.id).MaySpeak u a k (x.lock (.send k)).next := by
  have hconcerns : x.Concerns u k := hx.filed.of_lookup hk
  exact ⟨ha, hconcerns, holds_enter (hground.quiet hturns k hconcerns)⟩

/-- The server still has the document open. -/
theorem parting_of_entered (hx : x.Inv u) (hy : y.Inv u) (ha : a.isCall = true)
    (hground : x.Ground u a turns content) (hk : List.lookup v x.documents = some k)
    (hturns : v = u → turns = true)
    (hrely : ((x.unfile v).enter (.send k) a.id).Rely u a y) : y.Parting u v k := by
  intro hv
  subst hv
  have hspeak := maySpeak_enter hx ha hground hk (hturns rfl)
  have hholds : ((x.unfile v).enter (.send k) a.id).Holds a (.send k) (x.lock (.send k)).next :=
    ⟨hspeak.holds.holder, hspeak.holds.issued, hspeak.holds.owner⟩
  obtain ⟨-, hheard, hkept⟩ := hrely.protected hholds (hrely.always.concerns hspeak.concerns)
  refine ⟨fun hattached => ?_, fun i hi => ?_⟩
  · have hnone : (x.unfile v).attached v = none := attached_unfile_self
    exact absurd (hnone.symm.trans (hkept.attached hattached).1) (by simp)
  · have hfree := hground.quiet (hturns rfl) k hspeak.concerns
    obtain ⟨copy, hconversation, -⟩ := hx.tidy (.send k) hfree hspeak.concerns i
      (hkept.front i hi).1 hk
    exact ⟨_, copy, (hheard i).symm ▸ hconversation⟩

end Scene

namespace Session

theorem reaches_part (ha : a.isCall = true) (uri : String) :
    Reaches (fun m : HubMoment s u a => m.scene.Sends a turns content v k tk ∧
        m.scene.Parting u v k)
      (do
        let h ← get
        if ← tell s (h.synchronizer k).closeNotice then
          modify fun h => h.emit (.documentClosed (h.session s).serverId uri))
      fun _ m => m.scene.Sends a turns content v k tk ∧ m.scene.Parted u v k := by
  refine reaches_look (fun _ _ _ h => h ▸ id) fun h => ?_
  refine Reaches.bind (Q := fun _ m => m.scene.Sends a turns content v k tk ∧
    m.scene.Parted u v k) ?_ fun told => ?_
  · intro m hm hfacts
    obtain ⟨⟨hsends, hparting⟩, rfl⟩ := hfacts
    have hnotice : (m.state.synchronizer k).closeNotice = .closed v :=
      congrArg DocumentNotice.closed hsends.uri
    rw [hnotice]
    refine keeps_tell (k := k) hm ha (fun hv => ?_) fun m' _ hm' htells => ⟨hm', ?_⟩
    · exact ⟨⟨tk, hsends.maySpeak ha hv⟩, hparting.expects hv⟩
    · exact ⟨hsends.tells htells.scene, hparting.tells htells.scene⟩
  · cases told with
    | false => exact reaches_pure _ fun m hm => hm
    | true => exact reaches_silent (fun _ _ _ h => h ▸ id) fun _ => rfl

section Closing

variable {m : HubMoment s u a}

/-- The hub once a document is disconnected. -/
def detached (s : Nat) (v : String) (h : Hub) : Hub :=
  h.onSession s fun session => (session.detach v).touched

/-- The moment when the document is disconnected and the send lock of its synchronizer taken. -/
def closing (m : HubMoment s u a) (k : Nat) (v : String) : HubMoment s u a :=
  ((m.set (detached s v m.state)).set (detached s v m.state)).set
    (Hub.enterLock (.send k) (detached s v m.state)).2

theorem scene_closing (hm : m.Sound) (k : Nat) (v : String) :
    (closing m k v).scene = (m.scene.enter (.send k) a.id).unfile v := by
  have hdetached : scene (m.set (detached s v m.state)) = m.scene.unfile v :=
    scene_onSession hm (voiced_of_sound hm)
  have hlook : scene ((m.set (detached s v m.state)).set (detached s v m.state)) =
      scene (m.set (detached s v m.state)) := scene_set_of_outline rfl (voiced_set m _)
  have henter := scene_enter (m := (m.set (detached s v m.state)).set (detached s v m.state))
    (.send k) (voiced_set _ _)
  rw [hlook, hdetached] at henter
  exact henter

theorem sound_closing (hm : m.Sound) (ha : a.isCall = true)
    (hmay : Scene.MayEnter u a m.scene (.send k))
    (hunfile : (m.scene.enter (.send k) a.id).MayUnfile u a v) : (closing m k v).Sound := by
  have hentered : (m.scene.enter (.send k) a.id).Inv u := Scene.Inv.enter hm.inv hmay a.id
  refine sound_of_guarantee hm rfl rfl ?_ ?_
  · rw [scene_closing hm]
    exact hentered.unfile hunfile
  · rw [scene_closing hm]
    exact (Scene.guarantee_enter hmay).trans (Scene.guarantee_unfile hentered ha hunfile)

/-- A session without documents begins to wait for its end. -/
theorem reaches_idle (isLast : Bool) :
    Reaches (fun m : HubMoment s u a => m.scene.Basis a turns content [])
      (if isLast then do
        Routine.start (.stopWhenIdle s ((← get).session s).attachments)
      else pure () : Program Unit)
      fun _ m => m.scene.Basis a turns content [] := by
  cases isLast with
  | false => exact reaches_pure _ fun m hm => hm
  | true =>
    refine reaches_look (fun _ _ _ h => h ▸ id) fun h => ?_
    refine Reaches.weaken (P := fun m => m.scene.Basis a turns content []) ?_ (fun _ _ hm => hm.1)
      fun _ _ hm => hm
    exact reaches_spawn (fun _ _ _ h => h ▸ id) fun _ _ => rfl

/-- A call that disconnects the document does so while no other call runs. -/
theorem reaches_disconnect (ha : a.isCall = true) (v : String) (hturns : v = u → turns = true) :
    Reaches (fun m : HubMoment s u a => m.scene.Ground u a turns content) (disconnect s v)
      fun _ m => m.scene.Basis a turns content [] := by
  refine reaches_look (fun _ _ _ h => h ▸ id) fun h => ?_
  cases hlookup : (h.session s).synchronizer? v with
  | none => exact reaches_pure _ fun m hm => hm.1.toBasis
  | some k =>
    intro m hm hfacts
    obtain ⟨hground, rfl⟩ := hfacts
    have hinv : m.scene.Inv u := hm.inv
    have hk : List.lookup v m.scene.documents = some k := hlookup
    have hunfile : (m.scene.enter (.send k) a.id).MayUnfile u a v := by
      rintro rfl
      exact ⟨hground.alone.trans (hturns rfl), k, _,
        Scene.maySpeak_enter hinv ha hground hk (hturns rfl)⟩
    have hclosing := sound_closing (v := v) hm ha (hinv.filed.mayEnter ha hk) hunfile
    have hbasis : (m.scene.unfile v).Basis a turns content [] :=
      ⟨hground.alone, hground.own, hground.text, hground.phase⟩
    refine keeps_bind.mpr fun _ => keeps_get (keeps_bind.mpr (keeps_inLine (keeps_bind.mpr
      (keeps_await hclosing (fun _ _ _ => trivial) fun m₁ hm₁ hrely _ hready => ?_))))
    have hheld : (m₁.scene.lock (.send k)).holder = some (m.scene.lock (.send k)).next :=
      (Lock.isHeldBy_iff _ _).mp hready
    have hrely' : (closing m k v).scene.Rely u a m₁.scene := hrely
    rw [scene_closing hm] at hrely'
    have hsends := Scene.sends_of_entered (x := m.scene.unfile v) hm₁.inv ha hbasis
      (hinv.filed.of_lookup hk) hrely' hheld
    have hparting := Scene.parting_of_entered hinv hm₁.inv ha hground hk hturns hrely'
    refine (reaches_part ha v m₁ hm₁ ⟨hsends, hparting⟩).mono fun m₂ _ hgoal => ?_
    obtain ⟨hm₂, hsends₂, hparted⟩ := hgoal
    have hm₃ : (m₂.set (Hub.leaveLock (.send k) (m.scene.lock (.send k)).next m₂.state)).Sound :=
      sound_leave hm₂ hsends₂.holds.owner (fun _ => hparted.tidy hsends₂.uri)
        (hparted.closed hsends₂.uri hm₂.inv) fun hno => absurd (ha.symm.trans hno) (by simp)
    have hbasis₃ : (scene (m₂.set (Hub.leaveLock (.send k) (m.scene.lock (.send k)).next
        m₂.state))).Basis a turns content [] := by
      rw [scene_leave _ _ (voiced_of_sound hm₂)]
      exact hsends₂.basis.leave ((Scene.Inv.locked hm₂.inv).valid _)
    exact reaches_idle _ _ hm₃ hbasis₃

end Closing

end Session

end LanguageHub
