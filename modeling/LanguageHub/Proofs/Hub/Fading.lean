import LanguageHub.Proofs.Hub.Neutral

/-!
# Falling silent

A client that is closed, a link that fails, a session that leaves its started state or drops
its client: from then on the session speaks to fewer servers. Nothing else changes, so
whatever is known about the document stays so.
-/

namespace LanguageHub

open Routine Pact

namespace Scene

variable {u : String} {a : Actor} {x y : Scene} {state : ServerState} {speaker : Option Nat}
  {isOpen isDue : Nat → Bool}

/-- The session is in this state and speaks through this client; these clients are open, and
these links have failed. -/
def fade (x : Scene) (state : ServerState) (speaker : Option Nat) (isOpen isDue : Nat → Bool) :
    Scene :=
  { x with state := state, speaker := speaker, isOpen := isOpen, isDue := isDue }

/-- The session speaks to fewer servers than before. -/
structure Fades (x : Scene) (state : ServerState) (speaker : Option Nat)
    (isOpen isDue : Nat → Bool) : Prop where
  state : state = x.state ∨ state ≠ .started
  speaker : speaker = x.speaker ∨ speaker = none
  isOpen : ∀ c, isOpen c = true → x.isOpen c = true
  isDue : ∀ i, x.isDue i = true → isDue i = true

theorem Front.of_fade (h : x.Fades state speaker isOpen isDue) {i : Nat}
    (hi : (x.fade state speaker isOpen isDue).Front i) : x.Front i := by
  obtain ⟨hstarted, c, hc, hopen, hlink, hdue⟩ := hi
  refine ⟨?_, c, ?_, h.isOpen c hopen, hlink, ?_⟩
  · rcases h.state with heq | hne
    · exact heq.symm.trans hstarted
    · exact absurd hstarted hne
  · rcases h.speaker with heq | hnone
    · exact heq.symm.trans hc
    · exact absurd (hnone.symm.trans hc) (by simp)
  · cases hx : x.isDue i with
    | false => rfl
    | true => exact absurd ((h.isDue i hx).symm.trans hdue) (by simp)

theorem always_fade (h : x.Fades state speaker isOpen isDue) :
    x.Always (x.fade state speaker isOpen isDue) where
  session := rfl
  clients := Nat.le_refl _
  linkOf _ _ := rfl
  isOpen := h.isOpen
  links := Nat.le_refl _
  isDue := h.isDue
  synchronizers := Nat.le_refl _
  synchronizer _ _ := ⟨rfl, rfl⟩
  spoken _ h := h
  next _ := Nat.le_refl _
  owner _ _ _ := rfl
  gone _ _ _ h := h

theorem Inv.fade (h : x.Inv u) (hfades : x.Fades state speaker isOpen isDue)
    (hempty : state.IsBare → x.documents = [])
    (hrest : (x.lock (.lifecycle x.session)).isFree = true → state.IsAtRest) :
    (x.fade state speaker isOpen isDue).Inv u where
  known := h.known
  wired :=
    { h.wired with
      speaker := fun c hc => by
        rcases hfades.speaker with heq | hnone
        · exact h.wired.speaker c (heq.symm.trans hc)
        · exact absurd (hnone.symm.trans hc) (by simp) }
  filed := ⟨h.filed.1, h.filed.2, hempty⟩
  locked :=
    { h.locked with
      quiet := fun halone hstarted => by
        rcases hfades.state with heq | hne
        · exact h.locked.quiet halone (heq.symm.trans hstarted)
        · exact absurd hstarted hne }
  tidy n hfree := by
    have htidy : x.Tidy u n := h.tidy n hfree
    cases n with
    | lifecycle s =>
      rintro rfl
      exact hrest hfree
    | provider s => trivial
    | writer c => trivial
    | send k => exact fun hk i hi hattached => htidy hk i (hi.of_fade hfades) hattached
  closed i hi hnone hquiet := h.closed i (hi.of_fade hfades) hnone hquiet
  recalled := h.recalled

/-- What the others hold is left alone, unless it is the session's turn. -/
theorem protected_fade (h : x.Fades state speaker isOpen isDue) {n : LockName}
    (hn : n = .lifecycle x.session → state = x.state ∨ x.state = .started ∧ state = .failed) :
    Protected u x (x.fade state speaker isOpen isDue) n := by
  cases n with
  | lifecycle s =>
    rintro rfl
    exact ⟨hn rfl, rfl, h.speaker, fun _ h => h, .inl rfl, fun _ h => h⟩
  | provider s => trivial
  | writer c => exact fun _ => rfl
  | send k =>
    exact fun hk => ⟨hk, fun _ => rfl, rfl, fun i hi => ⟨hi.of_fade h, id⟩,
      fun h => ⟨h, fun _ => id⟩⟩

theorem still_fade (h : x.Fades state speaker isOpen isDue) :
    Still u x (x.fade state speaker isOpen isDue) where
  heard _ := rfl
  synchronizers := rfl
  lock _ := rfl
  text := rfl
  phase := rfl
  documents := .inl rfl
  front _ hi := ⟨hi.of_fade h, rfl⟩
  state hstarted := by
    rcases h.state with heq | hne
    · exact heq.symm.trans hstarted
    · exact absurd hstarted hne

theorem guarantee_fade (h : x.Fades state speaker isOpen isDue)
    (hlifecycle : (state = x.state ∨ x.state = .started ∧ state = .failed) ∨
      ∃ t, x.Holds a (.lifecycle x.session) t) :
    x.Guarantee u a (x.fade state speaker isOpen isDue) where
  always := always_fade h
  tickets n t _ hother := by
    refine ⟨fun hheld => ⟨hheld, protected_fade h ?_⟩, fun hne heq => absurd heq hne⟩
    rintro rfl
    refine hlifecycle.resolve_right ?_
    rintro ⟨t', ht'⟩
    obtain rfl := Option.some.inj (ht'.holder.symm.trans hheld)
    exact hother ht'.owner
  given _ _ ht hy := absurd (Nat.lt_of_le_of_lt ht hy) (Nat.lt_irrefl _)
  still _ := still_fade h
  alone := rfl
  text := rfl
  phase := rfl

/-- A session that only fails, or loses its client, falls silent for everyone. -/
theorem rely_fade (h : x.Fades state speaker isOpen isDue)
    (hstate : state = x.state ∨ x.state = .started ∧ state = .failed) :
    x.Rely u a (x.fade state speaker isOpen isDue) where
  always := always_fade h
  tickets _ _ _ _ :=
    ⟨fun hheld => ⟨hheld, protected_fade h fun _ => hstate⟩, fun hne heq => absurd heq hne⟩
  given _ _ ht hy := absurd (Nat.lt_of_le_of_lt ht hy) (Nat.lt_irrefl _)
  still _ _ := still_fade h
  alone _ := rfl

end Scene

open HubMoment

variable {s : Nat} {u : String} {a : Actor} {m : HubMoment s u a} {state : ServerState}
  {speaker : Option Nat} {isOpen isDue : Nat → Bool}

theorem HubMoment.scene_fade {h : Hub} (hm : m.Sound)
    (hout : h.outline s = (m.scene.fade state speaker isOpen isDue).toOutline)
    (hfades : m.scene.Fades state speaker isOpen isDue) :
    scene (m.set h) = m.scene.fade state speaker isOpen isDue := by
  refine scene_set_eq hout rfl fun c hc => ?_
  rcases hfades.speaker with heq | hnone
  · exact voiced_of_sound hm c (heq ▸ hc)
  · exact absurd (hnone.symm.trans hc) (by simp)

/-- A program may fail a session that is started, drop its client or close clients. -/
theorem neutralAt_fade {f : Hub → Hub} (state : ServerState) (speaker : Option Nat)
    (isOpen isDue : Nat → Bool) (hm : m.Sound)
    (hout : (f m.state).outline s = (m.scene.fade state speaker isOpen isDue).toOutline)
    (hfades : m.scene.Fades state speaker isOpen isDue)
    (hstate : state = m.scene.state ∨ m.scene.state = .started ∧ state = .failed) :
    NeutralAt m (modify f) := by
  intro drop goal hdrop hgoal _
  have hscene := scene_fade hm hout hfades
  have hbare : state.IsBare → m.scene.documents = [] := by
    rcases hstate with rfl | ⟨-, rfl⟩
    · exact (Scene.Inv.filed hm.inv).empty
    · simp [ServerState.IsBare]
  have hrest : (m.scene.lock (.lifecycle m.scene.session)).isFree = true → state.IsAtRest := by
    rcases hstate with rfl | ⟨-, rfl⟩
    · exact fun hfree => Scene.Inv.tidy hm.inv _ hfree rfl
    · simp [ServerState.IsAtRest]
  refine hgoal _ () (sound_set hm ?_ ?_) (later_set ?_)
  · rw [hscene]
    exact Scene.Inv.fade hm.inv hfades hbare hrest
  · rw [hscene]
    exact Scene.guarantee_fade hfades (.inl hstate)
  · rw [hscene]
    exact Scene.rely_fade hfades hstate

end LanguageHub
