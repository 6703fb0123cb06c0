import LanguageHub.Proofs.Hub.Turns

/-!
# Commits and synchronizers

Who holds the send lock of a synchronizer may take a commit from it. That changes neither
which document it is about nor what others rely on.
-/

namespace LanguageHub

open Routine Pact

namespace Scene

variable {u : String} {a : Actor} {x : Scene} {k k' tk : Nat} {f : Synchronizer → Synchronizer}

/-- A synchronizer is changed. -/
def amend (x : Scene) (k : Nat) (f : Synchronizer → Synchronizer) : Scene :=
  { x with synchronizers := x.synchronizers.modify k f }

/-- The change keeps what the synchronizer is about. -/
def Amends (x : Scene) (k : Nat) (f : Synchronizer → Synchronizer) : Prop :=
  (f (x.synchronizer k)).uri = (x.synchronizer k).uri ∧
    (f (x.synchronizer k)).settings = (x.synchronizer k).settings

theorem synchronizer_amend (k' : Nat) : (x.amend k f).synchronizer k' =
    if k = k' ∧ k' < x.synchronizers.length then f (x.synchronizer k') else x.synchronizer k' :=
  Hub.getD_modify ..

theorem synchronizer_amend_self (hk : k < x.synchronizers.length) :
    (x.amend k f).synchronizer k = f (x.synchronizer k) :=
  (synchronizer_amend k).trans (if_pos ⟨rfl, hk⟩)

theorem synchronizer_amend_of_ne (hne : k' ≠ k) :
    (x.amend k f).synchronizer k' = x.synchronizer k' :=
  (synchronizer_amend k').trans (if_neg fun h => hne h.1.symm)

theorem length_amend : (x.amend k f).synchronizers.length = x.synchronizers.length :=
  List.length_modify ..

theorem amends_synchronizer (h : x.Amends k f) (k' : Nat) :
    ((x.amend k f).synchronizer k').uri = (x.synchronizer k').uri ∧
      ((x.amend k f).synchronizer k').settings = (x.synchronizer k').settings := by
  rw [synchronizer_amend]
  split
  · rename_i heq
    rw [← heq.1]
    exact h
  · exact ⟨rfl, rfl⟩

theorem concerns_amend (h : x.Amends k f) : (x.amend k f).Concerns u k' ↔ x.Concerns u k' := by
  rw [Concerns, Concerns, length_amend, (amends_synchronizer h k').1]

theorem quiet_amend (h : x.Amends k f) : (x.amend k f).Quiet u ↔ x.Quiet u :=
  forall_congr' fun _ => imp_congr_left (concerns_amend h)

/-- What is known of other synchronizers stays so. -/
theorem told_amend_of_ne (hne : k' ≠ k) {i : Nat} (h : x.Told u i k') :
    (x.amend k f).Told u i k' := by
  obtain ⟨copy, hconversation, hmirrors⟩ := h
  refine ⟨copy, ?_, ?_⟩
  · rw [synchronizer_amend_of_ne hne]
    exact hconversation
  · unfold Mirrors
    rw [synchronizer_amend_of_ne hne]
    exact hmirrors

theorem Filed.amend (h : x.Filed) (hf : x.Amends k f) : (x.amend k f).Filed where
  nodup := h.nodup
  synchronized v k' hmem := by
    rw [length_amend, (amends_synchronizer hf k').1]
    exact h.synchronized v k' hmem
  empty := h.empty

theorem Locked.amend (h : x.Locked u) (hf : x.Amends k f) : (x.amend k f).Locked u where
  valid := h.valid
  inUse k' hk' := by
    rw [length_amend]
    exact h.inUse k' hk'
  single k' hk' k'' hne hk'' := h.single k' hk' k'' hne ((concerns_amend hf).mp hk'')
  exclusive k' k'' hk' hk'' :=
    h.exclusive k' k'' ((concerns_amend hf).mp hk') ((concerns_amend hf).mp hk'')
  quiet halone hstarted hnone := (quiet_amend hf).mpr (h.quiet halone hstarted hnone)

/-- While the send lock is held the synchronizer need not agree with any server. -/
theorem Inv.amend (h : x.Inv u) (hf : x.Amends k f)
    (hheld : (x.lock (.send k)).isFree = false)
    (hrecalled : (f (x.synchronizer k)).lastText = (x.synchronizer k).lastText) :
    (x.amend k f).Inv u where
  known := h.known
  wired := ⟨h.wired.1, h.wired.2, h.wired.3, h.wired.4, h.wired.5, h.wired.6, h.wired.7⟩
  filed := h.filed.amend hf
  locked := h.locked.amend hf
  tidy n hfree := by
    have htidy : x.Tidy u n := h.tidy n hfree
    cases n with
    | lifecycle s => exact htidy
    | provider s => trivial
    | writer c => trivial
    | send k' =>
      intro hk' i hi hattached
      have hne : k' ≠ k := by
        rintro rfl
        exact absurd (hheld.symm.trans hfree) (by simp)
      exact told_amend_of_ne hne (htidy ((concerns_amend hf).mp hk') i hi hattached)
  closed i hi hnone hquiet := h.closed i hi hnone ((quiet_amend hf).mp hquiet)
  recalled k' hk' hphase := by
    have hsame : ((x.amend k f).synchronizer k').lastText = (x.synchronizer k').lastText := by
      rw [synchronizer_amend]
      split
      · rename_i heq
        rw [← heq.1]
        exact hrecalled
      · rfl
    exact hsame.trans (h.recalled k' hk' hphase)

theorem always_amend (hf : x.Amends k f) : x.Always (x.amend k f) where
  session := rfl
  clients := Nat.le_refl _
  linkOf _ _ := rfl
  isOpen _ h := h
  links := Nat.le_refl _
  isDue _ h := h
  synchronizers := Nat.le_of_eq length_amend.symm
  synchronizer k' _ := amends_synchronizer hf k'
  spoken _ h := h
  next _ := Nat.le_refl _
  owner _ _ _ := rfl
  gone _ _ _ h := h

/-- What others hold is left alone. -/
theorem protected_amend (hf : x.Amends k f) {n : LockName} (hn : n ≠ .send k) :
    Protected u x (x.amend k f) n := by
  cases n with
  | lifecycle s =>
    exact fun _ => ⟨.inl rfl, rfl, .inl rfl, fun _ h => h, .inl rfl, fun _ => (quiet_amend hf).mpr⟩
  | provider s => trivial
  | writer c => exact fun _ => rfl
  | send k' =>
    intro hk'
    have hsame : (x.amend k f).synchronizer k' = x.synchronizer k' :=
      synchronizer_amend_of_ne fun heq => hn (congrArg LockName.send heq)
    refine ⟨(concerns_amend hf).mp hk', fun _ => rfl, congrArg _ hsame, fun _ h => ⟨h, id⟩,
      fun h => ⟨h, fun copy hcopy => ?_⟩⟩
    unfold Mirrors
    rw [hsame]
    exact hcopy

theorem guarantee_amend (ha : a.isCall = true) (hf : x.Amends k f)
    (hholds : x.Holds a (.send k) tk) : x.Guarantee u a (x.amend k f) where
  always := always_amend hf
  tickets n t _ hother := by
    refine ⟨fun hheld => ⟨hheld, protected_amend hf ?_⟩, fun hne heq => absurd heq hne⟩
    rintro rfl
    obtain rfl := Option.some.inj (hholds.holder.symm.trans hheld)
    exact hother hholds.owner
  given _ _ ht hy := absurd (Nat.lt_of_le_of_lt ht hy) (Nat.lt_irrefl _)
  still hno := absurd (ha.symm.trans hno) (by simp)
  alone := rfl
  text := rfl
  phase := rfl

end Scene

end LanguageHub

/-!
# Edits between other steps

An edit may be made between the steps of calls: it is shown before it is made, it is made or
refused, and the text is shown after it. Each of these keeps the scene in order, around the
edited document and around every other.
-/

namespace LanguageHub

namespace Synchronizer

/-- What a synchronizer is shown leads from the document's text and phase before to those after,
and tells nothing else. -/
structure Leads (f : Synchronizer → Synchronizer) (text : Buffer) (phase : EditPhase)
    (text' : Buffer) (phase' : EditPhase) : Prop where
  uri : ∀ sync, (f sync).uri = sync.uri
  settings : ∀ sync, (f sync).settings = sync.settings
  version : ∀ sync, (f sync).version = sync.version
  tracks : ∀ sync served, sync.Tracks served text phase → (f sync).Tracks served text' phase'
  recalled : ∀ sync, (phase ≠ .tried → sync.lastText = text.text) → phase' ≠ .tried →
    (f sync).lastText = text'.text

/-- No change comes to wait for the text unless its edit cannot be made. -/
def Settles (f : Synchronizer → Synchronizer) (text : Buffer) (phase : EditPhase)
    (text' : Buffer) (phase' : EditPhase) : Prop :=
  ∀ sync served, sync.Tracks served text phase → sync.Settled text phase →
    (f sync).Settled text' phase'

theorem settles_beforeChange {b : Buffer} {e : Edit} (hshort : e.IsShortIn b) :
    Settles (·.beforeChange b e) b .idle b (.shown e) :=
  fun _ _ htracks _ => settled_beforeChange htracks hshort

theorem settles_after (b : Buffer) (e : Edit) : Settles id b (.shown e) (b.after e) .tried :=
  fun _ _ _ hsettled => hsettled.tried

theorem settles_afterChange (b : Buffer) : Settles (·.afterChange b) b .tried b .idle :=
  fun _ _ htracks _ => htracks.afterChange.settled_of_idle

theorem beforeChange_eq (sync : Synchronizer) (b : Buffer) (e : Edit) :
    sync.beforeChange b e = { sync with pending := (sync.beforeChange b e).pending } := by
  unfold beforeChange
  split <;> rfl

theorem leads_beforeChange (b : Buffer) (e : Edit) :
    Leads (·.beforeChange b e) b .idle b (.shown e) := by
  constructor
  case uri => intro sync; rw [beforeChange_eq]
  case settings => intro sync; rw [beforeChange_eq]
  case version => intro sync; rw [beforeChange_eq]
  case tracks => exact fun sync served h => h.beforeChange e
  case recalled =>
    intro sync hlast _
    rw [beforeChange_eq]
    exact hlast (by simp)

theorem leads_after (b : Buffer) (e : Edit) : Leads id b (.shown e) (b.after e) .tried := by
  constructor
  case uri => exact fun _ => rfl
  case settings => exact fun _ => rfl
  case version => exact fun _ => rfl
  case tracks => exact fun sync served h => h.tried
  case recalled => exact fun _ _ hphase => absurd rfl hphase

theorem leads_afterChange (b : Buffer) : Leads (·.afterChange b) b .tried b .idle := by
  constructor
  case uri => exact fun _ => rfl
  case settings => exact fun _ => rfl
  case version => exact fun _ => rfl
  case tracks => exact fun sync served h => h.afterChange
  case recalled => exact fun _ _ _ => rfl

end Synchronizer

namespace Scene

variable {u v : String} {a : Actor} {x : Scene} {k : Nat} {f : Synchronizer → Synchronizer}
  {text text' : Buffer} {phase phase' : EditPhase}

/-- The scene once a synchronizer was shown something of an edit, which brings the document to
this text and phase. -/
def edit (x : Scene) (k : Nat) (f : Synchronizer → Synchronizer) (text : Buffer)
    (phase : EditPhase) : Scene :=
  { x.amend k f with text := text, phase := phase }

/-- What is collected still leads from the server's copy to the text. -/
structure Edits (u : String) (x : Scene) (k : Nat) (f : Synchronizer → Synchronizer)
    (text : Buffer) (phase : EditPhase) : Prop where
  amends : x.Amends k f
  version : (f (x.synchronizer k)).version = (x.synchronizer k).version
  mirrors : ∀ k' copy, x.attached u = some k' → x.Mirrors k' copy →
    (x.edit k f text phase).Mirrors k' copy
  recalled : ∀ k', x.attached u = some k' → phase ≠ .tried →
    ((x.amend k f).synchronizer k').lastText = text.text

theorem version_amend (h : (f (x.synchronizer k)).version = (x.synchronizer k).version)
    (k' : Nat) : ((x.amend k f).synchronizer k').version = (x.synchronizer k').version := by
  rw [synchronizer_amend]
  split
  · rename_i heq
    rw [← heq.1]
    exact h
  · rfl

theorem Inv.edit (h : x.Inv u) (hedits : x.Edits u k f text phase) :
    (x.edit k f text phase).Inv u := by
  have hf := hedits.amends
  have hfiled : (x.amend k f).Filed := h.filed.amend hf
  have hlocked : (x.amend k f).Locked u := h.locked.amend hf
  constructor
  case known => exact h.known
  case wired =>
    exact ⟨h.wired.1, h.wired.2, h.wired.3, h.wired.4, h.wired.5, h.wired.6, h.wired.7⟩
  case filed => exact ⟨hfiled.1, hfiled.2, hfiled.3⟩
  case locked =>
    exact ⟨hlocked.1, hlocked.2, hlocked.3, hlocked.4, hlocked.5⟩
  case tidy =>
    intro n hfree
    have htidy : x.Tidy u n := h.tidy n hfree
    cases n with
    | lifecycle s => exact htidy
    | provider s => trivial
    | writer c => trivial
    | send k' =>
      intro hk' i hi hattached
      obtain ⟨copy, hconversation, hmirrors⟩ := htidy ((concerns_amend hf).mp hk') i hi hattached
      refine ⟨copy, ?_, hedits.mirrors k' copy hattached hmirrors⟩
      have hversion := version_amend hedits.version k'
      change DocumentNotice.Conversation _ (some ((x.amend k f).synchronizer k').version) copy
      rw [hversion]
      exact hconversation
  case closed =>
    intro i hi hnone hquiet
    exact h.closed i hi hnone ((quiet_amend hf).mp hquiet)
  case recalled => exact hedits.recalled

/-- Nobody is disturbed by an edit but a call that takes turns with others: whoever is about to
speak of the document finds that what is collected still leads to the text. -/
theorem rely_edit (hcall : a.isCall = true → x.alone = false)
    (hedits : x.Edits u k f text phase) : x.Rely u a (x.edit k f text phase) := by
  have hf := hedits.amends
  have halways : x.Always (x.amend k f) := always_amend hf
  constructor
  case always =>
    exact ⟨halways.1, halways.2, halways.3, halways.4, halways.5, halways.6, halways.7,
      halways.8, halways.9, halways.10, halways.11, halways.12⟩
  case tickets =>
    intro n t _ _
    refine ⟨fun hheld => ⟨hheld, ?_⟩, fun hne heq => absurd heq hne⟩
    cases n with
    | lifecycle s =>
      intro _
      exact ⟨.inl rfl, rfl, .inl rfl, fun _ h => h, .inl rfl, fun _ => (quiet_amend hf).mpr⟩
    | provider s => trivial
    | writer c => exact fun _ => rfl
    | send k' =>
      intro hk'
      refine ⟨(concerns_amend hf).mp hk', fun _ => rfl, version_amend hedits.version k',
        fun _ h => ⟨h, id⟩, fun hattached => ⟨hattached, fun copy hcopy => ?_⟩⟩
      exact hedits.mirrors k' copy hattached hcopy
  case given =>
    intro k' t ht ht'
    exact absurd (Nat.lt_of_le_of_lt ht ht') (Nat.lt_irrefl _)
  case still =>
    intro hcalls halone
    exact absurd ((hcall hcalls).symm.trans halone) (by simp)
  case alone => exact fun _ => rfl

/-! ## The document that is edited, and the others -/

/-- The place of the document's synchronizer; there is none there if it is not attached. -/
def placeOf (x : Scene) (v : String) : Nat :=
  (List.lookup v x.documents).getD x.synchronizers.length

theorem placeOf_of_attached (h : x.attached u = some k) : x.placeOf u = k := by
  unfold attached at h
  rw [placeOf, h]
  rfl

theorem mirrors_edit (hk : k < x.synchronizers.length)
    (hleads : Synchronizer.Leads f x.text x.phase text phase)
    (hsettles : x.alone = false → Synchronizer.Settles f x.text x.phase text phase)
    {copy : Option Buffer} (h : x.Mirrors k copy) : (x.edit k f text phase).Mirrors k copy := by
  intro hkind
  have hsame : (x.edit k f text phase).synchronizer k = f (x.synchronizer k) :=
    synchronizer_amend_self hk
  rw [hsame, Synchronizer.kind, hleads.settings] at hkind
  obtain ⟨served, hcopy, htracks, hsettled⟩ := h hkind
  refine ⟨served, hcopy, ?_, ?_⟩
  · rw [hsame]
    exact hleads.tracks _ served htracks
  · intro hnot
    rw [hsame]
    exact hsettles hnot _ served htracks (hsettled hnot)

theorem mirrors_edit_of_ne {k' : Nat} (hne : k' ≠ k) {copy : Option Buffer}
    (h : x.Mirrors k' copy) : (x.edit k f x.text x.phase).Mirrors k' copy := by
  have hsame : (x.edit k f x.text x.phase).synchronizer k' = x.synchronizer k' :=
    synchronizer_amend_of_ne hne
  unfold Mirrors
  rw [hsame]
  exact h

theorem edits_own (h : x.Inv u) (hleads : Synchronizer.Leads f x.text x.phase text phase)
    (hsettles : x.alone = false → Synchronizer.Settles f x.text x.phase text phase) :
    x.Edits u (x.placeOf u) f text phase := by
  constructor
  case amends => exact ⟨hleads.uri _, hleads.settings _⟩
  case version => exact hleads.version _
  case mirrors =>
    intro k' copy hattached hmirrors
    rw [placeOf_of_attached hattached]
    exact mirrors_edit (h.filed.of_lookup hattached).1 hleads hsettles hmirrors
  case recalled =>
    intro k' hattached hphase
    rw [placeOf_of_attached hattached, synchronizer_amend_self (h.filed.of_lookup hattached).1]
    exact hleads.recalled _ (h.recalled k' hattached) hphase

/-- Nothing is known of the document that would be lost by an edit of another one. -/
theorem edits_other (h : x.Inv u) (hne : v ≠ u)
    (hleads : Synchronizer.Leads f text phase text' phase') :
    x.Edits u (x.placeOf v) f x.text x.phase := by
  have hplace : ∀ k', x.attached u = some k' → k' ≠ x.placeOf v := by
    intro k' hattached
    obtain ⟨hk', huri⟩ := h.filed.of_lookup hattached
    unfold placeOf
    cases hv : List.lookup v x.documents with
    | none => exact Nat.ne_of_lt hk'
    | some k =>
      rintro rfl
      exact hne ((h.filed.of_lookup hv).2.symm.trans huri)
  constructor
  case amends => exact ⟨hleads.uri _, hleads.settings _⟩
  case version => exact hleads.version _
  case mirrors =>
    intro k' copy hattached hmirrors
    exact mirrors_edit_of_ne (hplace k' hattached) hmirrors
  case recalled =>
    intro k' hattached hphase
    rw [synchronizer_amend_of_ne (hplace k' hattached)]
    exact h.recalled k' hattached hphase

end Scene

/-! ## Hooks -/

namespace Session

/-- Shows something to the synchronizer of a document, if the document is connected. -/
def hook (s : Nat) (v : String) (f : Synchronizer → Synchronizer) (h : Hub) : Hub :=
  match (h.session s).synchronizer? v with
  | none => h
  | some k => h.onSynchronizer k f

theorem beforeChange_eq (s : Nat) (v : String) (b : Buffer) (e : Edit) :
    beforeChange s v b e = hook s v (·.beforeChange b e) := rfl

theorem afterChange_eq (s : Nat) (v : String) (b : Buffer) :
    afterChange s v b = hook s v (·.afterChange b) := rfl

end Session

/-- The world once an edit came a step further. -/
def World.edit (s : Nat) (v : String) (f : Synchronizer → Synchronizer) (text : Buffer)
    (phase : EditPhase) (w : World) : World :=
  { w with hub := Session.hook s v f w.hub, text := text, phase := phase }

theorem World.scene_edit (s : Nat) (v : String) (f : Synchronizer → Synchronizer) (text : Buffer)
    (phase : EditPhase) (w : World) : (w.edit s v f text phase).scene s =
      (w.scene s).edit ((w.scene s).placeOf v) f text phase := by
  have hplace : (w.scene s).placeOf v =
      ((w.hub.session s).synchronizer? v).getD w.hub.synchronizers.length := rfl
  rw [hplace]
  unfold edit Session.hook
  cases (w.hub.session s).synchronizer? v with
  | none =>
    have hsame : w.hub.synchronizers.modify w.hub.synchronizers.length f = w.hub.synchronizers :=
      List.modify_eq_self (Nat.le_refl _)
    dsimp only [Option.getD_none, Scene.edit, Scene.amend, scene, Hub.outline]
    rw [hsame]
  | some k => rfl

end LanguageHub
