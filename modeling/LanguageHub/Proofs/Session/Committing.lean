import LanguageHub.Proofs.Session.Sending

/-!
# Commits and saves

A commit takes the collected changes and tells the server of them. When calls take turns
nothing is collected after it, so that the server has the editor's text.
-/

namespace LanguageHub

namespace Synchronizer

variable {s : Synchronizer} {n : DocumentNotice}

theorem version_takeCommit (h : s.takeCommit.1 = none) : s.takeCommit.2.version = s.version := by
  unfold takeCommit at h ⊢
  split at h
  · rename_i hempty
    rw [if_pos hempty]
  · cases h

theorem uri_takeCommit : s.takeCommit.2.uri = s.uri ∧ s.takeCommit.2.settings = s.settings := by
  rw [takeCommit_eq]
  exact ⟨rfl, rfl⟩

theorem follow_takeCommit (h : s.takeCommit.1 = some n) :
    n.uri = s.uri ∧ n.follow (some s.version) = some (some s.takeCommit.2.version) := by
  unfold takeCommit at h ⊢
  split at h
  · cases h
  · rename_i hempty
    rw [if_neg hempty]
    cases h
    exact ⟨rfl, if_pos rfl⟩

theorem follow_saveNotice {b : Buffer} (h : s.saveNotice b = some n) :
    n.uri = s.uri ∧ n.follow (some s.version) = some (some s.version) ∧
      ∀ copy, n.copied copy = copy := by
  obtain ⟨withText, -, rfl⟩ := Option.map_eq_some_iff.mp h
  exact ⟨rfl, rfl, fun _ => rfl⟩

end Synchronizer

open Routine Pact HubMoment

namespace Scene

variable {u v : String} {a : Actor} {x : Scene} {k tk : Nat} {turns : Bool} {content : Buffer}
  {copy : Option Buffer}

/-- The scene once a commit was taken from a synchronizer. -/
def taken (x : Scene) (k : Nat) : Scene := x.amend k fun _ => (x.synchronizer k).takeCommit.2

theorem amends_takeCommit (x : Scene) (k : Nat) :
    x.Amends k fun _ => (x.synchronizer k).takeCommit.2 := Synchronizer.uri_takeCommit

theorem synchronizer_taken (hk : k < x.synchronizers.length) :
    (x.taken k).synchronizer k = (x.synchronizer k).takeCommit.2 := synchronizer_amend_self hk

theorem Mirrors.taken (h : x.Mirrors k copy) (hk : k < x.synchronizers.length)
    (hidle : x.alone = true → x.phase = .idle) :
    (x.taken k).Mirrors k ((x.synchronizer k).committed copy) := by
  intro hkind
  have hsame : ((x.taken k).synchronizer k).kind = (x.synchronizer k).kind :=
    congrArg SyncSettings.kind (amends_synchronizer (amends_takeCommit x k) k).2
  rw [hsame] at hkind
  obtain ⟨served, rfl, htracks, hsettled⟩ := h hkind
  have hsettled' : (x.synchronizer k).Settled x.text x.phase := by
    cases halone : x.alone with
    | false => exact hsettled halone
    | true => exact fun hmem => absurd (hidle halone) (htracks.awaiting hmem).2.1
  obtain ⟨copy', hcopy', htracks', -⟩ := htracks.takeCommit hsettled'
  rw [synchronizer_taken hk]
  exact ⟨copy', hcopy', htracks', fun _ => Synchronizer.settled_takeCommit _ _ _⟩

theorem Sends.taken (h : x.Sends a turns content v k tk) :
    (x.taken k).Sends a turns content v k tk where
  holds := ⟨h.holds.holder, h.holds.issued, h.holds.owner⟩
  basis := ⟨h.basis.alone, h.basis.own, h.basis.text, h.basis.phase⟩
  known := Nat.lt_of_lt_of_eq h.known length_amend.symm
  uri := ((amends_synchronizer (amends_takeCommit x k) k).1).trans h.uri

theorem Sends.idle (h : x.Sends a turns content v k tk) (halone : x.alone = true) :
    x.phase = .idle :=
  h.basis.phase (h.basis.alone.symm.trans halone)

/-- A commit that finds nothing changes nothing. -/
theorem Agreed.taken (h : x.Agreed u v k) (hx : x.Sends a turns content v k tk)
    (hnone : (x.synchronizer k).takeCommit.1 = none) : (x.taken k).Agreed u v k := by
  intro hv i hi
  obtain ⟨hattached, copy, hconversation, hmirrors⟩ := h hv i hi
  refine ⟨hattached, copy, ?_, ?_⟩
  · rw [synchronizer_taken hx.known, Synchronizer.version_takeCommit hnone]
    exact hconversation
  · have hcommitted : (x.synchronizer k).committed copy = copy := by
      rw [Synchronizer.committed, hnone]
    rw [← hcommitted]
    exact hmirrors.taken hx.known hx.idle

/-- The server is to be told of what a commit finds. -/
theorem Agreed.awaits_taken (h : x.Agreed u v k) (hx : x.Sends a turns content v k tk)
    {n : DocumentNotice} (hsome : (x.synchronizer k).takeCommit.1 = some n) (hv : v = u) :
    (x.taken k).Awaits u k n := by
  intro i hi
  obtain ⟨hattached, copy, hconversation, hmirrors⟩ := h hv i hi
  refine ⟨hattached, _, copy, hconversation, ?_, ?_⟩
  · rw [synchronizer_taken hx.known]
    exact (Synchronizer.follow_takeCommit hsome).2
  · have hcommitted : (x.synchronizer k).committed copy = n.copied copy := by
      rw [Synchronizer.committed, hsome]
    rw [← hcommitted]
    exact hmirrors.taken hx.known hx.idle

theorem Agreed.awaits_saved (h : x.Agreed u v k) {n : DocumentNotice} {b : Buffer}
    (hsome : (x.synchronizer k).saveNotice b = some n) (hv : v = u) : x.Awaits u k n := by
  intro i hi
  obtain ⟨hattached, copy, hconversation, hmirrors⟩ := h hv i hi
  obtain ⟨-, hnext, hcopied⟩ := Synchronizer.follow_saveNotice hsome
  refine ⟨hattached, _, copy, hconversation, hnext, ?_⟩
  rw [hcopied]
  exact hmirrors

/-- When calls take turns, nothing is collected for the synchronizer. -/
def Spent (turns : Bool) (k : Nat) (x : Scene) : Prop :=
  turns = true → (x.synchronizer k).pending = []

theorem rests_spent (turns : Bool) (k : Nat) : Rests turns (Spent turns k) := by
  intro x y _ hsame hx hturns
  rw [synchronizer, hsame hturns]
  exact hx hturns

/-- When calls take turns, nothing is collected for the document. -/
def Committed (u : String) (turns : Bool) (x : Scene) : Prop :=
  ∀ k, x.attached u = some k → Spent turns k x

theorem Sends.committed (h : x.Sends a turns content v k tk) (ha : a.isCall = true)
    (hx : x.Inv u) (hspent : Spent turns k x) (hv : v = u) : x.Committed u turns := by
  intro k' hk'
  obtain rfl := (h.maySpeak ha hv).eq_of_attached hx.locked hk'
  exact hspent

end Scene

namespace Session

variable {s : Nat} {u v : String} {a : Actor} {k tk : Nat} {turns : Bool} {content : Buffer}

/-- The commit is taken while the send lock is held. -/
theorem reaches_take (ha : a.isCall = true) :
    Reaches (fun m : HubMoment s u a => m.scene.Sends a turns content v k tk ∧
        m.scene.Agreed u v k)
      (modifyGet fun h =>
        let (notice, sync) := (h.synchronizer k).takeCommit
        (notice, h.onSynchronizer k fun _ => sync) : Program (Option DocumentNotice))
      fun notice m => m.scene.Sends a turns content v k tk ∧
        (notice = none → m.scene.Agreed u v k) ∧
        (∀ n, notice = some n → m.scene.MustTell u a turns content v k tk n) ∧
        m.scene.Spent turns k := by
  intro m hm h _
  obtain ⟨hsends, hagreed⟩ := h
  have hscene : scene (m.set (m.state.onSynchronizer k fun _ =>
      (m.state.synchronizer k).takeCommit.2)) = m.scene.taken k :=
    scene_set_eq rfl rfl (voiced_of_sound hm)
  have hheld : (m.scene.lock (.send k)).isFree = false :=
    Bool.eq_false_iff.mpr hsends.holds.not_free
  refine ⟨sound_set hm ?_ ?_, ?_⟩
  · refine hscene ▸ Scene.Inv.amend hm.inv (Scene.amends_takeCommit _ _) hheld ?_
    rw [Synchronizer.takeCommit_eq]
  · exact hscene ▸ Scene.guarantee_amend ha (Scene.amends_takeCommit _ _) hsends.holds
  · have hfacts : ∀ x, x = m.scene.taken k → x.Sends a turns content v k tk ∧
        ((m.scene.synchronizer k).takeCommit.1 = none → x.Agreed u v k) ∧
        (∀ n, (m.scene.synchronizer k).takeCommit.1 = some n →
          x.MustTell u a turns content v k tk n) ∧ x.Spent turns k := by
      rintro _ rfl
      refine ⟨hsends.taken, hagreed.taken hsends,
        fun n hn => ⟨hsends.taken, ?_, hagreed.awaits_taken hsends hn⟩, fun _ => ?_⟩
      · exact (Synchronizer.follow_takeCommit hn).1.trans hsends.uri
      · rw [Scene.synchronizer_taken hsends.known]
        exact Synchronizer.pending_takeCommit _
    exact hfacts _ hscene

theorem reaches_commit (ha : a.isCall = true) (v : String) :
    Reaches (fun m : HubMoment s u a => m.scene.Basis a turns content []) (commit s v)
      fun _ m => m.scene.Basis a turns content [] ∧ (v = u → m.scene.Committed u turns) := by
  refine reaches_look (fun _ _ _ h => h ▸ id) fun h => ?_
  cases hk : (h.session s).synchronizer? v with
  | none =>
    refine reaches_pure _ fun m hm => ?_
    obtain ⟨hbasis, rfl⟩ := hm
    refine ⟨hbasis, fun hv k hattached => ?_⟩
    subst hv
    exact absurd (hk.symm.trans hattached) (by simp)
  | some k =>
    refine (reaches_withSend (v := v) (Q := fun _ x => v = u → x.Committed u turns) ha
      (fun tk => ?_) fun _ _ _ h => h).weaken (fun m _ hm => ?_) fun _ _ hm => hm
    · refine Reaches.bind (reaches_take ha) fun notice => ?_
      cases notice with
      | none =>
        intro m hm hfacts
        obtain ⟨hsends, hagreed, -, hspent⟩ := hfacts
        exact ⟨hm, hsends, hagreed rfl, hsends.committed ha hm.inv hspent⟩
      | some n =>
        refine Reaches.weaken
          (P := fun m => m.scene.MustTell u a turns content v k tk n ∧ m.scene.Spent turns k) ?_
          (fun m _ hm => ⟨hm.2.2.1 n rfl, hm.2.2.2⟩) fun _ _ h => h
        refine reaches_look (fun _ _ _ h => h ▸ id) fun h => ?_
        refine Reaches.weaken ?_ (fun m _ hm => hm.1) fun _ _ h => h
        refine Reaches.bind (reaches_tell ha (Scene.rests_spent turns k)) fun _ m hm hfacts => ?_
        obtain ⟨hsends, hagreed, hspent⟩ := hfacts
        exact ⟨hm, hsends, hagreed, hsends.committed ha hm.inv hspent⟩
    · obtain ⟨hbasis, rfl⟩ := hm
      exact ⟨hbasis, hk⟩

theorem reaches_save (ha : a.isCall = true) (v text : String) :
    Reaches (fun m : HubMoment s u a => m.scene.Basis a turns content []) (save s v text)
      fun _ m => m.scene.Basis a turns content [] := by
  refine reaches_look (fun _ _ _ h => h ▸ id) fun h => ?_
  cases hk : (h.session s).synchronizer? v with
  | none => exact reaches_pure _ fun m hm => hm.1
  | some k =>
    refine (reaches_withSend (v := v) (Q := fun _ _ => True) ha
      (fun tk => ?_) fun _ _ _ h => h).weaken (fun m _ hm => ?_) fun _ _ hm => hm.1
    · refine reaches_look (fun _ _ _ h => h ▸ id) fun h => ?_
      cases hnotice : (h.synchronizer k).saveNotice ⟨text⟩ with
      | none => exact reaches_pure _ fun m hm => ⟨hm.1.1, hm.1.2, trivial⟩
      | some n =>
        refine Reaches.bind (Reaches.weaken
          (reaches_tell (n := n) (F := fun _ => True) ha fun _ _ _ _ _ => trivial)
          (fun m _ hm => ?_) fun _ _ hm => hm) fun _ => reaches_pure _ fun m hm => hm
        obtain ⟨⟨hsends, hagreed⟩, rfl⟩ := hm
        exact ⟨⟨hsends, (Synchronizer.follow_saveNotice hnotice).1.trans hsends.uri,
          hagreed.awaits_saved hnotice⟩, trivial⟩
    · obtain ⟨hbasis, rfl⟩ := hm
      exact ⟨hbasis, hk⟩

end Session

end LanguageHub
