import LanguageHub.Proofs.Hub.Attaching
import LanguageHub.Proofs.Session.Sending

/-!
# Opening documents

A document is connected and opened in one go: nobody else can speak of it before the server
was told that it is open.
-/

namespace LanguageHub

open Routine Pact HubMoment

variable {s : Nat} {u v : String} {a : Actor} {k tk t : Nat} {turns : Bool} {content : Buffer}

namespace Scene

variable {x : Scene}

/-- Whoever connects the document with a new synchronizer is to tell the server that it is
open. -/
theorem mustTell_file (sync : Synchronizer) (h : x.Inv u) (hbasis : x.Basis a turns content [])
    (hunheard : sync.uri = u → x.Unheard u) (hversion : sync.version = Synchronizer.initialVersion)
    (hpending : sync.pending = [])
    (htracks : sync.uri = u → sync.kind = .full ∨ sync.kind = .incremental →
      sync.Tracks ⟨sync.lastText⟩ x.text x.phase) :
    ((x.file sync).enter (.send x.synchronizers.length) a.id).MustTell u a turns content sync.uri
      x.synchronizers.length (x.lock (.send x.synchronizers.length)).next sync.openNotice where
  holds := holds_enter (x := x.file sync) h.locked.unclaimed
  basis :=
    have hfiled : (x.file sync).Basis a turns content [] :=
      ⟨hbasis.alone, hbasis.own, hbasis.text, hbasis.phase⟩
    hfiled.enter x.synchronizers.length
  known := Nat.lt_of_lt_of_eq (Nat.lt_succ_self _) (length_file x sync).symm
  uri := congrArg Synchronizer.uri (synchronizer_file_last x sync)
  about := rfl
  awaits huri i hi := by
    obtain ⟨hnone, hquiet⟩ := hunheard huri
    obtain ⟨copy, hconversation⟩ := h.closed i hi hnone hquiet
    have hlast : ((x.file sync).enter (.send x.synchronizers.length) a.id).synchronizer
        x.synchronizers.length = sync := synchronizer_file_last x sync
    refine ⟨attached_file_self huri, none, copy, hconversation, ?_, ?_⟩
    · rw [hlast, hversion]
      rfl
    · unfold Mirrors
      rw [hlast]
      refine fun hkind => ⟨⟨sync.lastText⟩, rfl, htracks huri hkind, fun _ hmem => ?_⟩
      simp [hpending] at hmem

end Scene

namespace Session

theorem keeps_sendOpen {m : HubMoment s u a} {goal : HubMoment s u a → Unit → Prop}
    {n : DocumentNotice} (hm : m.Sound) (ha : a.isCall = true)
    (hmust : m.scene.MustTell u a turns content v k tk n)
    (hn : (m.scene.synchronizer k).openNotice = n)
    (hgoal : ∀ m', m'.Sound → m.Tells k n m' →
      m'.scene.Sends a turns content v k tk → m'.scene.Agreed u v k → goal m' ()) :
    (sendOpen s k).Keeps (fun _ _ => True) m goal := by
  have hscene : scene (m.set m.state) = m.scene := scene_set_of_outline rfl (voiced_of_sound hm)
  have hm₁ : (m.set m.state).Sound := sound_of_scene (m := m) rfl rfl hscene hm
  have hmust₁ := hmust
  rw [← hscene] at hmust₁
  subst hn
  refine keeps_get (keeps_bind.mpr ?_)
  refine keeps_tell (k := k) hm₁ ha (fun huri => ?_) fun m₂ r hm₂ htells => ?_
  · have hv : v = u := hmust.about.symm.trans huri
    exact ⟨⟨tk, hmust₁.toSends.maySpeak ha hv⟩, (hmust₁.awaits hv).expects⟩
  · have htells₂ := htells.of_scene (m := m) rfl hscene rfl rfl
    have hsends := hmust.toSends.tells htells₂.scene
    have hagreed := htells₂.scene.agreed hmust.about hmust.awaits
    cases r with
    | false => exact hgoal m₂ hm₂ htells₂ hsends hagreed
    | true =>
      intro _
      have hsilent : scene (m₂.set (m₂.state.emit (.documentOpened
          (m₂.state.session s).serverId (m.state.synchronizer k).uri))) = m₂.scene :=
        scene_set_of_outline rfl (voiced_of_sound hm₂)
      refine hgoal _ (sound_of_scene (m := m₂) rfl rfl hsilent hm₂)
        (htells₂.of_scene rfl rfl rfl hsilent) ?_ ?_
      · rwa [hsilent]
      · rwa [hsilent]

section Opening

variable {m : HubMoment s u a} {languageId text : String} {settings : SyncSettings}

theorem scene_addDocument (hm : m.Sound) (sync : Synchronizer) :
    scene (m.set (addDocument s sync m.state).2) = m.scene.file sync := by
  have hout : (addDocument s sync m.state).2.outline s = (m.scene.file sync).toOutline :=
    Hub.outline_onSession (known hm)
  exact scene_set_eq hout rfl (voiced_of_sound hm)

/-- The document that is connected comes with the editor's text. -/
theorem text_addDocument (hm : m.Sound) (hbasis : m.scene.Basis a turns content [])
    (hunheard : m.scene.Unheard u) (htext : turns = true → text = content.text)
    (hallows : (pact s u a).allows m.start m.state
      (addDocument s (.start u languageId settings text) m.state).2) :
    text = m.scene.text.text ∧ m.scene.phase = .idle := by
  cases hturns : turns with
  | true =>
    rw [hbasis.text hturns]
    exact ⟨htext hturns, hbasis.phase hturns⟩
  | false =>
    have halone : World.alone m.start = false := by
      have heq : m.scene.alone = m.origin.alone := Scene.Guarantee.alone hm.guarantee
      exact heq.symm.trans (hbasis.alone.trans hturns)
    have hfile := scene_addDocument hm (.start u languageId settings text)
    have hlookup : (m.scene.file (.start u languageId settings text)).attached u =
        some m.scene.synchronizers.length := Scene.attached_file_self rfl
    have hnew : (scene (m.set (addDocument s (.start u languageId settings text)
        m.state).2)).attached u = some m.scene.synchronizers.length := by rwa [hfile]
    have hlast : (scene (m.set (addDocument s (.start u languageId settings text)
        m.state).2)).synchronizer m.scene.synchronizers.length =
        .start u languageId settings text := by
      rw [hfile]
      exact Scene.synchronizer_file_last _ _
    have hold : m.scene.attached u ≠ some m.scene.synchronizers.length := by simp [hunheard.1]
    obtain ⟨hidle, hgiven⟩ := (hallows halone).attached m.scene.synchronizers.length hnew hold
    have hsame : (addDocument s (.start u languageId settings text) m.state).2.synchronizer
        m.scene.synchronizers.length = .start u languageId settings text := hlast
    have htextNow : m.scene.text = World.text m.start := Scene.Guarantee.text hm.guarantee
    have hphaseNow : m.scene.phase = World.phase m.start := Scene.Guarantee.phase hm.guarantee
    rw [hsame, ← htextNow] at hgiven
    exact ⟨hgiven, hphaseNow.trans hidle⟩

theorem tracks_addDocument (hm : m.Sound) (hbasis : m.scene.Basis a turns content [])
    (hunheard : m.scene.Unheard u) (htext : turns = true → text = content.text)
    (hallows : (pact s u a).allows m.start m.state
      (addDocument s (.start u languageId settings text) m.state).2) :
    (m.scene.phase ≠ .tried → text = m.scene.text.text) ∧
      (settings.kind = .full ∨ settings.kind = .incremental →
        (Synchronizer.start u languageId settings text).Tracks ⟨text⟩ m.scene.text
          m.scene.phase) := by
  obtain ⟨hgiven, hidle⟩ := text_addDocument hm hbasis hunheard htext hallows
  rw [hgiven, hidle]
  exact ⟨fun _ => rfl, fun hkind => Synchronizer.tracks_start hkind u languageId m.scene.text⟩

/-- The moment when the document is connected and the send lock of its synchronizer taken. -/
def opening (m : HubMoment s u a) (sync : Synchronizer) : HubMoment s u a :=
  (m.set (addDocument s sync m.state).2).set
    (Hub.enterLock (.send m.scene.synchronizers.length) (addDocument s sync m.state).2).2

theorem scene_opening (hm : m.Sound) (sync : Synchronizer) : (opening m sync).scene =
    (m.scene.file sync).enter (.send m.scene.synchronizers.length) a.id := by
  rw [← scene_addDocument hm]
  exact scene_enter (m := m.set (addDocument s sync m.state).2) _ (voiced_set m _)

theorem sound_opening (sync : Synchronizer) (hm : m.Sound) (ha : a.isCall = true)
    (hmay : m.scene.MayFile u sync) (hturn : m.origin.Holds a (.lifecycle s) t) :
    (opening m sync).Sound := by
  have hscene := scene_opening hm sync
  have hfile := Scene.Guarantee.file hm.guarantee hm.inv hmay ha hturn
  refine ⟨?_, ?_, fun job hjob => ?_⟩
  · change (opening m sync).scene.Inv u
    rw [hscene]
    exact Scene.Inv.file hm.inv hmay ha
  · change m.origin.Guarantee u a (opening m sync).scene
    rw [hscene]
    exact hfile.trans (Scene.guarantee_enter (Scene.mayEnter_file ha))
  · change (opening m sync).scene.Starts job
    rw [hscene]
    exact (hm.jobs job hjob).always ((Scene.always_file _ _).trans (Scene.always_enter _ _ _))

/-- What the session's turn is used for goes on once a document was opened. -/
def Opens (v : String) (m m' : HubMoment s u a) : Prop :=
  ∀ t, m.InTurn t → m'.InTurn t ∧
    (m'.scene.state = m.scene.state ∨ m.scene.state = .started ∧ m'.scene.state = .failed) ∧
    (v ≠ u → m.scene.Unheard u → m'.scene.Unheard u)

theorem opens_of_tells {sync : Synchronizer} {n : DocumentNotice} {m' : HubMoment s u a}
    (hm : m.Sound) (ha : a.isCall = true) (hm' : m'.Sound)
    (htells : HubMoment.Tells m.scene.synchronizers.length n (opening m sync) m') (tk : Nat) :
    Opens sync.uri m
      (m'.set (Hub.leaveLock (.send m.scene.synchronizers.length) tk m'.state)) := by
  intro t ht
  have hscene := scene_opening hm sync
  have hleave := scene_leave (m := m') (.send m.scene.synchronizers.length) tk
    (voiced_of_sound hm')
  have hfiled : (m.scene.file sync).Holds a (.lifecycle s) t :=
    ⟨ht.now.holder, ht.now.issued, ht.now.owner⟩
  have hopening : (opening m sync).scene.Holds a (.lifecycle s) t := by
    rw [hscene]
    exact hfiled.enter (by simp) a.id
  have hkept := htells.scene.turn t hopening
  refine ⟨⟨?_, htells.origin t hopening ht.origin⟩, ?_, fun hne hunheard => ?_⟩
  · rw [hleave]
    exact (htells.scene.holds _ t (by simp) hopening).leave (by simp) tk
  · rw [hleave]
    rw [hscene] at hkept
    exact hkept.state
  · rw [hleave]
    rw [hscene] at hkept
    have hnone : (m.scene.file sync).attached u = none :=
      (Scene.attached_file_of_ne hne).trans hunheard.1
    have hquiet := (Scene.mayEnter_file ha).quiet (t := a.id) hnone
      (Scene.quiet_file (Scene.Inv.locked hm.inv) hunheard.2)
    exact ⟨hkept.attached_none hnone, Scene.quiet_leave (hkept.quiet hnone hquiet)⟩

theorem keeps_openDocument {goal : HubMoment s u a → Nat → Prop} (hm : m.Sound)
    (ha : a.isCall = true) (hbasis : m.scene.Basis a turns content [])
    (hturn : m.origin.Holds a (.lifecycle s) t)
    (hstate : m.scene.state = .started ∨ m.scene.state = .failed)
    (hunheard : v = u → m.scene.Unheard u) (htext : v = u → turns = true → text = content.text)
    (hgoal : ∀ m' k, m'.Sound → m'.scene.Basis a turns content [] → Opens v m m' → goal m' k) :
    (openDocument s (.start v languageId settings text)).Keeps (fun _ _ => True) m goal := by
  refine keeps_bind.mpr fun hallows => keeps_bind.mpr (keeps_inLine ?_)
  have htracks : v = u → _ := fun hv =>
    tracks_addDocument hm hbasis (hunheard hv) (htext hv) (hv ▸ hallows)
  have hmust := Scene.mustTell_file (x := m.scene)
    (.start v languageId settings text) hm.inv hbasis hunheard rfl rfl fun hv => hv ▸ (htracks hv).2
  have hopening := sound_opening (.start v languageId settings text) hm ha
    ⟨hstate, hunheard, fun hv => (htracks hv).1⟩ hturn
  rw [← scene_opening hm] at hmust
  have hlast : (opening m (.start v languageId settings text)).scene.synchronizer
      m.scene.synchronizers.length = .start v languageId settings text := by
    rw [scene_opening hm]
    exact Scene.synchronizer_file_last _ _
  refine keeps_sendOpen hopening ha hmust (congrArg _ hlast)
    fun m' hm' htells hsends hagreed => ?_
  have hscene := scene_leave (m := m') (.send m.scene.synchronizers.length)
    (m.scene.lock (.send m.scene.synchronizers.length)).next (voiced_of_sound hm')
  refine hgoal _ _ (sound_leave hm' hsends.holds.owner (fun _ => hsends.tidy hagreed)
    (hsends.closed hagreed hm'.inv) fun hno => absurd (ha.symm.trans hno) (by simp)) ?_
    (opens_of_tells hm ha hm' htells _)
  change (scene (m'.set (Hub.leaveLock (.send m.scene.synchronizers.length)
    (m.scene.lock (.send m.scene.synchronizers.length)).next m'.state))).Basis a turns content []
  rw [hscene]
  exact hsends.basis.leave ((Scene.Inv.locked hm'.inv).valid _)

end Opening

end Session

end LanguageHub
