import LanguageHub.Proofs.Session.Opening
import LanguageHub.Proofs.Session.Starting
import LanguageHub.Proofs.Session.Turns

/-!
# Starting, connecting and restarting

Starts, stops and restarts take turns. A document is connected in the turn in which the
session came up, and a restart opens the documents again with the texts that they had.
-/

namespace LanguageHub

open Routine Pact HubMoment

variable {s : Nat} {u v : String} {a : Actor} {t : Nat} {turns : Bool} {content : Buffer}
  {α : Type}

/-! ## Turns -/

/-- What is done in turn begins and ends with the session at rest. -/
theorem reaches_inTurn {p : Program α} {Q : α → HubMoment s u a → Prop}
    (hp : ∀ t, Reaches (Acts s u a turns content t fun x => x.state.IsAtRest) p fun b m =>
      m.InTurn t ∧ m.scene.state.IsAtRest ∧
        (m.Sound → Q b (m.set (Hub.leaveLock (.lifecycle s) t m.state)))) :
    Reaches (fun m : HubMoment s u a => m.scene.Known u a turns content)
      (Program.withLock (.lifecycle s) p) Q := by
  intro m hm hknown
  refine keeps_withLock hm trivial (fun _ _ _ => trivial)
    fun m₁ hm₁ hrely horigin hholds htidy => ?_
  have henter : m.scene.Rely u a (m.scene.enter (.lifecycle s) a.id) :=
    Scene.rely_enter trivial (by simp)
  have hthen : m₁.origin.Holds a (.lifecycle s) (m.scene.lock (.lifecycle s)).next := by
    rw [horigin]
    exact hholds
  refine (hp _ m₁ hm₁ ⟨⟨hholds, hthen⟩, hknown.rely (henter.trans hrely) hm₁.inv,
    htidy rfl⟩).mono fun m₂ b hgoal => ?_
  obtain ⟨hm₂, hturn, hrest, hQ⟩ := hgoal
  refine ⟨sound_leave hm₂ hturn.now.owner (fun _ _ => hrest) (fun i hi hnone hquiet => ?_)
    fun _ => by simp, hQ hm₂⟩
  exact Scene.Inv.closed hm₂.inv i hi hnone (Scene.quiet_of_quiet_leave (by simp) hquiet)

theorem Scene.Basis.leaveTurn {x : Scene} (h : x.Basis a turns content []) (n : LockName)
    (t : Nat) : (x.leave n t).Basis a turns content [] :=
  ⟨h.alone, fun k t' ht' => h.own k t' (mem_tickets_of_leave ht'), h.text, h.phase⟩

namespace Session

theorem reaches_stop :
    Reaches (fun m : HubMoment s u a => m.scene.Known u a turns content) (stop s)
      fun _ m => a.isCall = true → m.scene.Basis a turns content [] := by
  refine reaches_inTurn fun t => reaches_stopInTurn.weaken
    (fun m _ h => ⟨h.turn, h.known, trivial⟩) fun _ m h => ⟨h.turn, h.fact.isAtRest, ?_⟩
  intro hm ha
  rw [scene_leave _ _ (voiced_of_sound hm)]
  exact (h.known ha).toBasis.leaveTurn _ _

/-- The session came up in the turn in which the call goes on. -/
structure CameUp (m : HubMoment s u a) : Prop where
  turn : ∃ t, m.origin.Holds a (.lifecycle s) t
  state : m.scene.state = .started ∨ m.scene.state = .failed
  quiet : m.scene.attached u = none → m.scene.Quiet u

theorem CameUp.of_scene {m m' : HubMoment s u a} (h : CameUp m) (hstart : m'.start = m.start)
    (hscene : m'.scene = m.scene) : CameUp m' where
  turn := by
    have horigin : m'.origin = m.origin := congrArg (World.scene s) hstart
    rw [horigin]
    exact h.turn
  state := hscene ▸ h.state
  quiet := hscene ▸ h.quiet

theorem CameUp.leave {m : HubMoment s u a} (h : CameUp m) (hm : m.Sound) (n : LockName) (t : Nat) :
    CameUp (m.set (Hub.leaveLock n t m.state)) := by
  have hscene := scene_leave n t (voiced_of_sound hm)
  refine ⟨h.turn, ?_, ?_⟩
  · rw [hscene]
    exact h.state
  · rw [hscene]
    exact fun hnone => Scene.quiet_leave (h.quiet hnone)

theorem reaches_start (ha : a.isCall = true) :
    Reaches (fun m : HubMoment s u a => m.scene.Ground u a turns content) (start s)
      fun r m => m.scene.Basis a turns content [] ∧ (r = .ok () → CameUp m) := by
  have hleave : ∀ t (m : HubMoment s u a) (r : Except HubError Unit),
      m.scene.Known u a turns content → (r = .ok () → CameUp m) → m.Sound →
        (scene (m.set (Hub.leaveLock (.lifecycle s) t m.state))).Basis a turns content [] ∧
          (r = .ok () → CameUp (m.set (Hub.leaveLock (.lifecycle s) t m.state))) := by
    intro t m r hknown hup hm
    refine ⟨?_, fun hr => (hup hr).leave hm _ _⟩
    rw [scene_leave _ _ (voiced_of_sound hm)]
    exact (hknown ha).toBasis.leaveTurn _ _
  refine Reaches.weaken (P := fun m => m.scene.Known u a turns content)
    (reaches_inTurn fun t => ?_) (fun m _ h _ => h) fun _ _ h => h
  refine reaches_look plain_acts fun h => ?_
  dsimp only
  split
  · rename_i hstarted
    refine reaches_pure _ fun m hm => ?_
    obtain ⟨hacts, rfl⟩ := hm
    refine ⟨hacts.turn, hacts.fact, fun hm => hleave t m _ hacts.known (fun _ => ?_) hm⟩
    refine ⟨⟨t, hacts.turn.origin⟩, .inl hstarted, fun hnone => ?_⟩
    cases hturns : turns with
    | true => exact (hacts.known ha).quiet hturns
    | false =>
      exact (Scene.Inv.locked hm.inv).quiet ((hacts.known ha).alone.trans hturns) hstarted hnone
  · refine reaches_pure _ fun m hm => ?_
    exact ⟨hm.1.turn, hm.1.fact, hleave t m _ hm.1.known (by simp)⟩
  · rename_i hstarted hfailed
    refine Reaches.weaken (P := Acts s u a turns content t fun x => x.state.IsBare)
      (reaches_startInTurn ha) (fun m _ hm => ?_) fun r m hacts => ?_
    · obtain ⟨hacts, rfl⟩ := hm
      refine ⟨hacts.turn, hacts.known, ?_⟩
      rcases hacts.fact with hstate | hstate | hstate | hstate
      · exact .inl hstate
      · exact absurd hstate hstarted
      · exact .inr (.inr (.inr hstate))
      · exact absurd hstate hfailed
    · cases r with
      | ok =>
        have hup : IsUp u m.scene := hacts.fact
        refine ⟨hacts.turn, ?_, hleave t m _ hacts.known fun _ => ?_⟩
        · exact hup.1.elim (fun h => .inr (.inl h)) fun h => .inr (.inr (.inr h))
        · exact ⟨⟨t, hacts.turn.origin⟩, hup.1, fun _ => hup.2.2⟩
      | error e =>
        exact ⟨hacts.turn, .inr (.inr (.inr hacts.fact)), hleave t m _ hacts.known (by simp)⟩

/-- A call connects the document with the text that the editor has. -/
theorem reaches_connect (ha : a.isCall = true) (document : DocumentRef) (text : String)
    (htext : document.uri = u → turns = true → text = content.text) :
    Reaches (fun m : HubMoment s u a => m.scene.Ground u a turns content)
      (connect s document text) fun _ m => m.scene.Basis a turns content [] := by
  refine Reaches.bind (reaches_start ha) fun r => ?_
  cases r with
  | error e => exact reaches_pure _ fun m hm => hm.1
  | ok =>
    refine Reaches.weaken
      (P := fun m : HubMoment s u a => m.scene.Basis a turns content [] ∧ CameUp m)
      ?_ (fun m _ hm => ⟨hm.1, hm.2 rfl⟩) fun _ _ h => h
    have hplain : Plain fun m : HubMoment s u a => m.scene.Basis a turns content [] ∧ CameUp m :=
      fun m m' hstart hscene hm => ⟨hscene ▸ hm.1, hm.2.of_scene hstart hscene⟩
    refine Reaches.bind (reaches_silent hplain fun h => Hub.outline_onSession_same
      (fun _ => rfl) (fun _ => rfl) fun _ => rfl) fun _ => ?_
    refine reaches_look hplain fun h => ?_
    dsimp only
    split
    · exact reaches_pure _ fun m hm => hm.1.1
    · exact reaches_pure _ fun m hm => hm.1.1
    · rename_i hnone
      intro m hm hfacts
      obtain ⟨⟨hbasis, hup⟩, rfl⟩ := hfacts
      obtain ⟨t, hturn⟩ := hup.turn
      refine keeps_bind.mpr (keeps_openDocument hm ha hbasis hturn hup.state (fun huri => ?_) htext
        fun m' k hm' hbasis' _ => ⟨hm', hbasis'⟩)
      have hattached : m.scene.attached u = none := huri ▸ hnone
      exact ⟨hattached, hup.quiet hattached⟩

/-! ## Restarts -/

/-- In the session's turn these documents are to be opened again. -/
structure Reopens (turns : Bool) (content : Buffer) (t : Nat) (documents : List Synchronizer)
    (m : HubMoment s u a) : Prop where
  turn : m.InTurn t
  basis : m.scene.Basis a turns content []
  state : m.scene.state = .started ∨ m.scene.state = .failed
  unheard : u ∈ documents.map (·.uri) → m.scene.Unheard u

theorem reaches_reopen (ha : a.isCall = true) (settings : SyncSettings)
    (documents : List Synchronizer) (hnodup : (documents.map (·.uri)).Nodup)
    (htext : ∀ sync ∈ documents, sync.uri = u → turns = true → sync.lastText = content.text) :
    Reaches (Reopens (s := s) (u := u) (a := a) turns content t documents)
      (reopen s settings documents) fun _ => Reopens turns content t [] := by
  induction documents with
  | nil => exact reaches_pure _ fun m hm => hm
  | cons sync rest ih =>
    simp only [List.map_cons, List.nodup_cons] at hnodup
    refine Reaches.bind (Q := fun _ => Reopens turns content t rest) ?_ fun _ =>
      ih hnodup.2 fun sync' hmem => htext sync' (List.mem_cons_of_mem _ hmem)
    intro m hm h
    refine keeps_openDocument hm ha h.basis h.turn.origin h.state
      (fun huri => h.unheard (by simp [huri])) (htext sync (by simp))
      fun m' k hm' hbasis hopens => ?_
    obtain ⟨hturn, hstate, hkept⟩ := hopens t h.turn
    refine ⟨hm', hturn, hbasis, ?_, fun hmem => ?_⟩
    · rcases hstate with heq | ⟨-, hfailed⟩
      · rw [heq]
        exact h.state
      · exact .inr hfailed
    · have hne : sync.uri ≠ u := by
        rintro rfl
        exact hnodup.1 hmem
      exact hkept hne (h.unheard (List.mem_cons_of_mem _ hmem))

/-- What a restart finds out about the documents before it stops the session. -/
theorem documents_of_filed {x : Scene} (hx : x.Inv u) (ha : a.isCall = true)
    (hknown : x.Known u a turns content) :
    let documents := x.documents.map fun d => x.synchronizer d.2
    (documents.map (·.uri)).Nodup ∧
      ∀ sync ∈ documents, sync.uri = u → turns = true → sync.lastText = content.text := by
  have huris : ∀ d ∈ x.documents, (x.synchronizer d.2).uri = d.1 := fun d hd =>
    (hx.filed.synchronized d.1 d.2 hd).2
  refine ⟨?_, fun sync hmem huri hturns => ?_⟩
  · rw [List.map_map]
    have hsame : x.documents.map ((·.uri) ∘ fun d => x.synchronizer d.2) = x.documents.map (·.1) :=
      List.map_congr_left huris
    rw [hsame]
    exact hx.filed.nodup
  · obtain ⟨⟨v, k⟩, hd, rfl⟩ := List.mem_map.mp hmem
    obtain rfl : v = u := (huris _ hd).symm.trans huri
    have hground := hknown ha
    have hphase : x.phase ≠ .tried := by simp [hground.phase hturns]
    rw [hx.recalled k (hx.filed.lookup_of_mem hd) hphase, hground.text hturns]

theorem reaches_restart (ha : a.isCall = true) :
    Reaches (fun m : HubMoment s u a => m.scene.Ground u a turns content) (restart s)
      fun _ m => m.scene.Basis a turns content [] := by
  have hleave : ∀ t (m : HubMoment s u a), m.scene.Basis a turns content [] → m.Sound →
      (scene (m.set (Hub.leaveLock (.lifecycle s) t m.state))).Basis a turns content [] := by
    intro t m hbasis hm
    rw [scene_leave _ _ (voiced_of_sound hm)]
    exact hbasis.leaveTurn _ _
  refine Reaches.weaken (P := fun m => m.scene.Known u a turns content)
    (reaches_inTurn fun t => ?_) (fun m _ h _ => h) fun _ _ h => h
  refine reaches_look plain_acts fun h => ?_
  dsimp only
  split
  · refine reaches_pure _ fun m hm => ?_
    exact ⟨hm.1.turn, hm.1.fact, hleave t m (hm.1.known ha).toBasis⟩
  · intro m hm hfacts
    obtain ⟨hacts, rfl⟩ := hfacts
    obtain ⟨hnodup, htext⟩ := documents_of_filed hm.inv ha hacts.known
    refine Reaches.bind (Q := fun _ => Acts s u a turns content t IsDown)
      (P := Acts s u a turns content t fun _ => True) reaches_stopInTurn (fun _ => ?_) m hm
      ⟨hacts.turn, hacts.known, trivial⟩
    refine Reaches.bind (Reaches.weaken (reaches_startInTurn ha)
      (fun m _ hm => ⟨hm.turn, hm.known, hm.fact.isBare⟩) fun _ _ hm => hm) fun r => ?_
    cases r with
    | error e =>
      refine reaches_pure _ fun m hm => ?_
      exact ⟨hm.turn, .inr (.inr (.inr hm.fact)), hleave t m (hm.known ha).toBasis⟩
    | ok =>
      refine reaches_look plain_acts fun h => ?_
      refine Reaches.bind (Reaches.weaken (reaches_reopen (t := t) (s := s) ha _ _ hnodup htext)
        (fun m _ hm => ?_) fun _ _ hm => hm) fun _ => reaches_pure _ fun m hm => ?_
      · have hup : IsUp u m.scene := hm.1.fact
        exact ⟨hm.1.turn, (hm.1.known ha).toBasis, hup.1, fun _ => hup.2⟩
      · refine ⟨hm.turn, ?_, hleave t m hm.basis⟩
        exact hm.state.elim (fun h => .inr (.inl h)) fun h => .inr (.inr (.inr h))

end Session

end LanguageHub
