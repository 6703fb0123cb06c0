import LanguageHub.Proofs.Hub.Frames
import LanguageHub.Proofs.Hub.Turns

/-!
# Connecting and disconnecting documents

A document is connected in a turn in which the session's turn was taken, with a new
synchronizer whose send lock is taken at once. It is disconnected in a turn in which its send
lock is taken.
-/

namespace LanguageHub

open Routine Pact

namespace Scene

variable {u v : String} {a : Actor} {x y : Scene} {k k' t : Nat} {sync : Synchronizer}

/-! ## Connecting -/

/-- A document is connected, with a new synchronizer. -/
def file (x : Scene) (sync : Synchronizer) : Scene :=
  { x with
    synchronizers := x.synchronizers ++ [sync]
    documents := x.documents.filter (·.1 != sync.uri) ++ [(sync.uri, x.synchronizers.length)] }

theorem lookup_file (v : String) : List.lookup v (x.file sync).documents =
    if v = sync.uri then some x.synchronizers.length else List.lookup v x.documents := by
  rw [file, List.lookup_append, Hub.lookup_filter]
  by_cases hv : v = sync.uri
  · simp [hv]
  · have hskip : (v == sync.uri) = false := by simpa using hv
    simp [hv, List.lookup_cons, hskip]

theorem attached_file_self (h : sync.uri = u) :
    (x.file sync).attached u = some x.synchronizers.length :=
  (lookup_file u).trans (if_pos h.symm)

theorem attached_file_of_ne (h : sync.uri ≠ u) : (x.file sync).attached u = x.attached u :=
  (lookup_file u).trans (if_neg h.symm)

theorem synchronizer_file (k : Nat) : (x.file sync).synchronizer k =
    if k = x.synchronizers.length then sync else x.synchronizer k :=
  Hub.getD_append_singleton ..

theorem synchronizer_file_of_ne (hk : k ≠ x.synchronizers.length) :
    (x.file sync).synchronizer k = x.synchronizer k :=
  (synchronizer_file k).trans (if_neg hk)

theorem synchronizer_file_last (x : Scene) (sync : Synchronizer) :
    (x.file sync).synchronizer x.synchronizers.length = sync :=
  (synchronizer_file _).trans (if_pos rfl)

theorem length_file (x : Scene) (sync : Synchronizer) :
    (x.file sync).synchronizers.length = x.synchronizers.length + 1 :=
  List.length_append

theorem concerns_file : (x.file sync).Concerns u k ↔
    x.Concerns u k ∨ k = x.synchronizers.length ∧ sync.uri = u := by
  rw [Concerns, length_file, synchronizer_file]
  split
  · rename_i hk
    subst hk
    simp [Concerns]
  · rename_i hk
    simp only [Concerns, hk, false_and, or_false]
    exact and_congr_left fun _ => ⟨fun h => by omega, fun h => by omega⟩

/-- Nobody has come for the send lock of a synchronizer that is not there yet. -/
theorem Locked.unclaimed (h : x.Locked u) :
    (x.lock (.send x.synchronizers.length)).isFree = true := by
  cases hfree : (x.lock (.send x.synchronizers.length)).isFree with
  | true => rfl
  | false => exact absurd (h.inUse _ hfree) (Nat.lt_irrefl _)

theorem quiet_file (h : x.Locked u) (hquiet : x.Quiet u) : (x.file sync).Quiet u := by
  intro k hk
  rcases concerns_file.mp hk with hk | ⟨rfl, -⟩
  · exact hquiet k hk
  · exact h.unclaimed

theorem told_file (hk : k ≠ x.synchronizers.length) {i : Nat} (h : x.Told u i k) :
    (x.file sync).Told u i k := by
  obtain ⟨copy, hconversation, hmirrors⟩ := h
  refine ⟨copy, ?_, ?_⟩
  · rw [synchronizer_file_of_ne hk]
    exact hconversation
  · unfold Mirrors
    rw [synchronizer_file_of_ne hk]
    exact hmirrors

theorem Filed.file (h : x.Filed) (hstate : ¬ x.state.IsBare) : (x.file sync).Filed where
  nodup := by
    have hrest : ((x.documents.filter (·.1 != sync.uri)).map (·.1)).Nodup :=
      h.nodup.sublist ((List.filter_sublist).map _)
    simp only [Scene.file, List.map_append, List.map_cons, List.map_nil, List.nodup_append,
      List.nodup_cons, List.not_mem_nil, not_false_eq_true, List.nodup_nil, and_self, hrest,
      List.mem_singleton, List.mem_map, List.mem_filter, bne_iff_ne, true_and]
    rintro _ ⟨entry, ⟨-, hne⟩, rfl⟩ _ rfl
    exact hne
  synchronized v k hmem := by
    rw [length_file]
    rcases List.mem_append.mp hmem with hold | hlast
    · obtain ⟨hk, huri⟩ := h.synchronized v k (List.mem_filter.mp hold).1
      rw [synchronizer_file_of_ne (Nat.ne_of_lt hk)]
      exact ⟨Nat.lt_succ_of_lt hk, huri⟩
    · obtain ⟨rfl, rfl⟩ := Prod.mk.inj (List.mem_singleton.mp hlast)
      rw [synchronizer_file_last]
      exact ⟨Nat.lt_succ_self _, rfl⟩
  empty hbare := absurd hbare hstate

theorem Locked.file (h : x.Locked u) (hunheard : sync.uri = u → x.attached u = none ∧ x.Quiet u) :
    (x.file sync).Locked u where
  valid := h.valid
  inUse k hk := by
    rw [length_file]
    exact Nat.lt_succ_of_lt (h.inUse k hk)
  single k hk k' hne hk' := by
    rcases concerns_file.mp hk' with hk' | ⟨rfl, -⟩
    · by_cases huri : sync.uri = u
      · exact (hunheard huri).2 k' hk'
      · rw [attached_file_of_ne huri] at hk
        exact h.single k hk k' hne hk'
    · exact h.unclaimed
  exclusive k k' hk hk' hne := by
    rcases concerns_file.mp hk with hk | ⟨rfl, -⟩
    · rcases concerns_file.mp hk' with hk' | ⟨rfl, -⟩
      · exact h.exclusive k k' hk hk' hne
      · exact .inr h.unclaimed
    · exact .inl h.unclaimed
  quiet halone hstarted hnone := by
    by_cases huri : sync.uri = u
    · exact absurd ((attached_file_self huri).symm.trans hnone) (by simp)
    · rw [attached_file_of_ne huri] at hnone
      exact quiet_file h (h.quiet halone hstarted hnone)

/-- Whether a document may be connected with this synchronizer. -/
structure MayFile (u : String) (x : Scene) (sync : Synchronizer) : Prop where
  state : x.state = .started ∨ x.state = .failed
  unheard : sync.uri = u → x.attached u = none ∧ x.Quiet u
  recalled : sync.uri = u → x.phase ≠ .tried → sync.lastText = x.text.text

theorem MayFile.not_isBare (h : x.MayFile u sync) : ¬ x.state.IsBare := by
  rcases h.state with heq | heq <;> simp [heq, ServerState.IsBare]

theorem mayEnter_file (ha : a.isCall = true) :
    MayEnter u a (x.file sync) (.send x.synchronizers.length) := by
  refine ⟨ha, ?_, fun hconcerns => ?_⟩
  · rw [length_file]
    exact Nat.lt_succ_self _
  · rw [Concerns, synchronizer_file_last] at hconcerns
    exact attached_file_self hconcerns.2

/-- The scene once the send lock of the new synchronizer is taken. -/
theorem Inv.file (h : x.Inv u) (hmay : x.MayFile u sync) (ha : a.isCall = true) :
    ((x.file sync).enter (.send x.synchronizers.length) a.id).Inv u where
  known := h.known
  wired := ⟨h.wired.1, h.wired.2, h.wired.3, h.wired.4, h.wired.5, h.wired.6, h.wired.7⟩
  filed :=
    have hfiled : (x.file sync).Filed := h.filed.file hmay.not_isBare
    ⟨hfiled.1, hfiled.2, hfiled.3⟩
  locked := (h.locked.file hmay.unheard).enter (mayEnter_file ha) a.id
  tidy n hfree := by
    have hne : n ≠ .send x.synchronizers.length := by
      rintro rfl
      rw [enter_lock_self, Lock.enter_isFree] at hfree
      cases hfree
    rw [enter_lock_of_ne hne] at hfree
    have htidy : x.Tidy u n := h.tidy n hfree
    cases n with
    | lifecycle s => exact htidy
    | provider s => trivial
    | writer c => trivial
    | send k =>
      intro hk i hi hattached
      have hlast : k ≠ x.synchronizers.length := fun heq => hne (congrArg LockName.send heq)
      have hk' : x.Concerns u k := (concerns_file.mp hk).resolve_right fun h => hlast h.1
      by_cases huri : sync.uri = u
      · have hsame := (attached_file_self (x := x) huri).symm.trans hattached
        exact absurd (Option.some.inj hsame).symm hlast
      · have hold : x.attached u = some k := (attached_file_of_ne huri).symm.trans hattached
        exact told_file hlast (htidy hk' i hi hold)
  closed i hi hnone hquiet := by
    by_cases huri : sync.uri = u
    · exact absurd ((attached_file_self (x := x) huri).symm.trans hnone) (by simp)
    · have hold : x.attached u = none := (attached_file_of_ne huri).symm.trans hnone
      have hquiet' : (x.file sync).Quiet u := quiet_of_quiet_enter hquiet
      exact h.closed i hi hold fun k hk => hquiet' k (concerns_file.mpr (.inl hk))
  recalled k hk hphase := by
    by_cases huri : sync.uri = u
    · have hlast := (attached_file_self (x := x) huri).symm.trans hk
      obtain rfl := Option.some.inj hlast
      exact (congrArg Synchronizer.lastText (synchronizer_file_last x sync)).trans
        (hmay.recalled huri hphase)
    · have hold : x.attached u = some k := (attached_file_of_ne huri).symm.trans hk
      have hlt := (h.filed.of_lookup hold).1
      exact (congrArg Synchronizer.lastText
        (synchronizer_file_of_ne (Nat.ne_of_lt hlt))).trans (h.recalled k hold hphase)

theorem always_file (x : Scene) (sync : Synchronizer) : x.Always (x.file sync) where
  session := rfl
  clients := Nat.le_refl _
  linkOf _ _ := rfl
  isOpen _ h := h
  links := Nat.le_refl _
  isDue _ h := h
  synchronizers := by
    rw [length_file]
    exact Nat.le_succ _
  synchronizer k hk := by
    rw [synchronizer_file_of_ne (Nat.ne_of_lt hk)]
    exact ⟨rfl, rfl⟩
  spoken _ h := h
  next _ := Nat.le_refl _
  owner _ _ _ := rfl
  gone _ _ _ h := h

/-- What others hold is left alone, unless it is the session's turn. -/
theorem protected_file (h : x.Inv u) (hmay : x.MayFile u sync) {n : LockName}
    (hn : n ≠ .lifecycle x.session) {t : Nat} (hheld : (x.lock n).holder = some t) :
    Protected u x (x.file sync) n := by
  cases n with
  | lifecycle s => exact fun hs => absurd (congrArg LockName.lifecycle hs) hn
  | provider s => trivial
  | writer c => exact fun _ => rfl
  | send k =>
    have hused : (x.lock (.send k)).isFree = false := by
      rw [Lock.isFree, hheld]
      rfl
    have hlt := h.locked.inUse k hused
    intro hk
    have hk' : x.Concerns u k :=
      (concerns_file.mp hk).resolve_right fun h => Nat.ne_of_lt hlt h.1
    have huri : sync.uri ≠ u := fun huri =>
      absurd ((hmay.unheard huri).2 k hk') (by simp [hused])
    have hsame : (x.file sync).synchronizer k = x.synchronizer k :=
      synchronizer_file_of_ne (Nat.ne_of_lt hlt)
    refine ⟨hk', fun _ => rfl, congrArg _ hsame, fun i hi => ⟨hi, fun hx => ?_⟩, fun hy => ?_⟩
    · exact (attached_file_of_ne huri).trans hx
    · refine ⟨(attached_file_of_ne huri).symm.trans hy, fun copy hcopy => ?_⟩
      unfold Mirrors
      rw [hsame]
      exact hcopy

/-- Who had the session's turn when it went on may connect a document. -/
theorem Guarantee.file {z : Scene} (h : z.Guarantee u a x) (hx : x.Inv u)
    (hmay : x.MayFile u sync) (ha : a.isCall = true)
    (hturn : z.Holds a (.lifecycle z.session) t) : z.Guarantee u a (x.file sync) where
  always := h.always.trans (always_file x sync)
  tickets n t' ht' hother := by
    by_cases hn : n = .lifecycle x.session
    · subst hn
      rw [h.always.session] at hother ⊢
      refine ⟨fun hheld => absurd hheld (hturn.not_other hother), fun _ _ _ => ?_⟩
      rcases hmay.state with heq | heq
      · exact .inr (.inl heq)
      · exact .inr (.inr (.inr heq))
    · refine (h.tickets n t' ht' hother).trans h.always (always_file x sync) ?_
      exact ⟨fun hheld => ⟨hheld, protected_file hx hmay hn hheld⟩,
        fun hne heq => absurd heq hne⟩
  given := h.given
  still hno := absurd (ha.symm.trans hno) (by simp)
  alone := h.alone
  text := h.text
  phase := h.phase

/-! ## Disconnecting -/

/-- A document is not connected any more. -/
def unfile (x : Scene) (v : String) : Scene :=
  { x with documents := x.documents.filter (·.1 != v) }

theorem attached_unfile_self : (x.unfile u).attached u = none :=
  (Hub.lookup_filter ..).trans (if_pos rfl)

theorem attached_unfile_of_ne (h : v ≠ u) : (x.unfile v).attached u = x.attached u :=
  (Hub.lookup_filter ..).trans (if_neg h.symm)

/-- Who disconnects the document holds its send lock, and calls take turns. -/
def MayUnfile (u : String) (a : Actor) (x : Scene) (v : String) : Prop :=
  v = u → x.alone = true ∧ ∃ k t, x.MaySpeak u a k t

theorem Inv.unfile (h : x.Inv u) (hmay : x.MayUnfile u a v) : (x.unfile v).Inv u where
  known := h.known
  wired := ⟨h.wired.1, h.wired.2, h.wired.3, h.wired.4, h.wired.5, h.wired.6, h.wired.7⟩
  filed :=
    { nodup := h.filed.nodup.sublist ((List.filter_sublist).map _)
      synchronized := fun v k hmem => h.filed.synchronized v k (List.mem_filter.mp hmem).1
      empty := fun hbare => by simp [Scene.unfile, h.filed.empty hbare] }
  locked :=
    { valid := h.locked.valid
      inUse := h.locked.inUse
      single := fun k hk => by
        by_cases hv : v = u
        · subst hv
          exact absurd (attached_unfile_self.symm.trans hk) (by simp)
        · rw [attached_unfile_of_ne hv] at hk
          exact h.locked.single k hk
      exclusive := h.locked.exclusive
      quiet := fun halone hstarted hnone => by
        by_cases hv : v = u
        · exact absurd ((hmay hv).1.symm.trans halone) (by simp)
        · rw [attached_unfile_of_ne hv] at hnone
          exact h.locked.quiet halone hstarted hnone }
  tidy n hfree := by
    have htidy : x.Tidy u n := h.tidy n hfree
    cases n with
    | lifecycle s => exact htidy
    | provider s => trivial
    | writer c => trivial
    | send k =>
      intro hk i hi hattached
      by_cases hv : v = u
      · subst hv
        exact absurd (attached_unfile_self.symm.trans hattached) (by simp)
      · rw [attached_unfile_of_ne hv] at hattached
        exact htidy hk i hi hattached
  closed i hi hnone hquiet := by
    by_cases hv : v = u
    · obtain ⟨-, k, t, hspeak⟩ := hmay hv
      exact absurd hquiet hspeak.not_quiet
    · rw [attached_unfile_of_ne hv] at hnone
      exact h.closed i hi hnone hquiet
  recalled k hk hphase := by
    by_cases hv : v = u
    · subst hv
      exact absurd (attached_unfile_self.symm.trans hk) (by simp)
    · rw [attached_unfile_of_ne hv] at hk
      exact h.recalled k hk hphase

theorem attached_unfile (x : Scene) (v : String) :
    (x.unfile v).attached u = x.attached u ∨ (x.unfile v).attached u = none := by
  by_cases hv : v = u
  · subst hv
    exact .inr attached_unfile_self
  · exact .inl (attached_unfile_of_ne hv)

theorem guarantee_unfile (h : x.Inv u) (ha : a.isCall = true) (hmay : x.MayUnfile u a v) :
    x.Guarantee u a (x.unfile v) where
  always := { Always.refl x with }
  tickets n t _ hother := by
    refine ⟨fun hheld => ⟨hheld, ?_⟩, fun hne heq => absurd heq hne⟩
    cases n with
    | lifecycle s =>
      exact fun _ => ⟨.inl rfl, rfl, .inl rfl, fun _ h => h, attached_unfile x v, fun _ h => h⟩
    | provider s => trivial
    | writer c => exact fun _ => rfl
    | send k =>
      intro hk
      have hv : v ≠ u := by
        intro hv
        obtain ⟨-, k', t', hspeak⟩ := hmay hv
        obtain ⟨rfl, rfl⟩ := hspeak.eq_of_held h.locked hk hheld
        exact hother hspeak.holds.owner
      refine ⟨hk, fun _ => rfl, rfl, fun i hi => ⟨hi, fun hx => ?_⟩, fun hy => ⟨?_, fun _ => id⟩⟩
      · exact (attached_unfile_of_ne hv).trans hx
      · exact (attached_unfile_of_ne hv).symm.trans hy
  given _ _ ht hy := absurd (Nat.lt_of_le_of_lt ht hy) (Nat.lt_irrefl _)
  still hno := absurd (ha.symm.trans hno) (by simp)
  alone := rfl
  text := rfl
  phase := rfl

end Scene

end LanguageHub
