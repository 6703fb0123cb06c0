import LanguageHub.Proofs.Hub.Scene

/-!
# Changes that follow each other

What is guaranteed of one change and of the next is guaranteed of both, and what one actor
guarantees the others may rely on.
-/

namespace LanguageHub.Scene

variable {u : String} {a b : Actor} {x y z : Scene}

/-! ## What never changes -/

theorem Always.refl (x : Scene) : Always x x where
  session := rfl
  clients := Nat.le_refl _
  linkOf _ _ := rfl
  isOpen _ h := h
  links := Nat.le_refl _
  isDue _ h := h
  synchronizers := Nat.le_refl _
  synchronizer _ _ := ⟨rfl, rfl⟩
  spoken _ h := h
  next _ := Nat.le_refl _
  owner _ _ _ := rfl
  gone _ _ _ h := h

theorem Always.trans (h : Always x y) (h' : Always y z) : Always x z where
  session := h'.session.trans h.session
  clients := Nat.le_trans h.clients h'.clients
  linkOf c hc := (h'.linkOf c (Nat.lt_of_lt_of_le hc h.clients)).trans (h.linkOf c hc)
  isOpen c hc := h.isOpen c (h'.isOpen c hc)
  links := Nat.le_trans h.links h'.links
  isDue i hi := h'.isDue i (h.isDue i hi)
  synchronizers := Nat.le_trans h.synchronizers h'.synchronizers
  synchronizer k hk :=
    have hk' := h'.synchronizer k (Nat.lt_of_lt_of_le hk h.synchronizers)
    ⟨hk'.1.trans (h.synchronizer k hk).1, hk'.2.trans (h.synchronizer k hk).2⟩
  spoken c hc := h'.spoken c (h.spoken c hc)
  next n := Nat.le_trans (h.next n) (h'.next n)
  owner n t ht := (h'.owner n t (Nat.lt_of_lt_of_le ht (h.next n))).trans (h.owner n t ht)
  gone n t ht hz := h.gone n t ht (h'.gone n t (Nat.lt_of_lt_of_le ht (h.next n)) hz)

theorem Always.concerns (h : Always x y) {k : Nat} (hk : x.Concerns u k) : y.Concerns u k :=
  ⟨Nat.lt_of_lt_of_le hk.1 h.synchronizers, ((h.synchronizer k hk.1).1).trans hk.2⟩

theorem Filed.of_lookup (h : x.Filed) {v : String} {k : Nat}
    (hk : List.lookup v x.documents = some k) :
    k < x.synchronizers.length ∧ (x.synchronizer k).uri = v :=
  h.synchronized v k (mem_of_lookup hk)

theorem Filed.lookup_of_mem (h : x.Filed) {v : String} {k : Nat} (hmem : (v, k) ∈ x.documents) :
    List.lookup v x.documents = some k :=
  LanguageHub.lookup_of_mem h.nodup hmem

/-! ## Protected state -/

theorem TurnKept.refl (u : String) (x : Scene) : TurnKept u x x :=
  ⟨.inl rfl, rfl, .inl rfl, fun _ h => h, .inl rfl, fun _ h => h⟩

theorem TurnKept.attached_none (h : TurnKept u x y) (hnone : x.attached u = none) :
    y.attached u = none := by
  rcases h.attached with heq | hnone'
  · exact heq.trans hnone
  · exact hnone'

theorem TurnKept.trans (h : TurnKept u x y) (h' : TurnKept u y z) : TurnKept u x z where
  state := by
    rcases h'.state with heq | ⟨hstarted, hfailed⟩
    · rw [heq]
      exact h.state
    · rcases h.state with heq | ⟨-, hfailed'⟩
      · exact .inr ⟨heq ▸ hstarted, hfailed⟩
      · simp [hfailed'] at hstarted
  clients := h'.clients.trans h.clients
  speaker := by
    rcases h'.speaker with heq | hnone
    · rw [heq]
      exact h.speaker
    · exact .inr hnone
  spoken c hc := h.spoken c (h'.spoken c hc)
  attached := by
    rcases h'.attached with heq | hnone
    · rw [heq]
      exact h.attached
    · exact .inr hnone
  quiet hnone hquiet := h'.quiet (h.attached_none hnone) (h.quiet hnone hquiet)

theorem CopyKept.refl (u : String) (x : Scene) (k : Nat) : CopyKept u x x k :=
  ⟨rfl, fun _ h => ⟨h, id⟩, fun h => ⟨h, fun _ => id⟩⟩

theorem CopyKept.trans {k : Nat} (h : CopyKept u x y k) (h' : CopyKept u y z k) :
    CopyKept u x z k where
  version := h'.version.trans h.version
  front i hi :=
    have hy := h'.front i hi
    ⟨(h.front i hy.1).1, fun hx => hy.2 ((h.front i hy.1).2 hx)⟩
  attached hz :=
    have hy := h'.attached hz
    have hx := h.attached hy.1
    ⟨hx.1, fun copy hcopy => hy.2 copy (hx.2 copy hcopy)⟩

theorem Protected.refl (u : String) (x : Scene) (n : LockName) : Protected u x x n := by
  cases n with
  | lifecycle s => exact fun _ => .refl u x
  | provider s => trivial
  | writer c => exact fun _ => rfl
  | send k => exact fun hk => ⟨hk, fun _ => rfl, .refl u x k⟩

theorem Protected.trans {n : LockName} (hxy : Always x y) (h : Protected u x y n)
    (h' : Protected u y z n) : Protected u x z n := by
  cases n with
  | lifecycle s => exact fun hs => (h hs).trans (h' (hs.trans hxy.session.symm))
  | provider s => trivial
  | writer c =>
    intro hc
    have hframes := h' (Nat.lt_of_lt_of_le hc hxy.clients)
    rw [hxy.linkOf c hc] at hframes
    exact hframes.trans (h hc)
  | send k =>
    intro hz
    obtain ⟨hy, hheard', hkept'⟩ := h' hz
    obtain ⟨hx, hheard, hkept⟩ := h hy
    exact ⟨hx, fun i => (hheard' i).trans (hheard i), hkept.trans hkept'⟩

/-- What the server was told stays so, while the document is connected. -/
theorem Told.protected {k i : Nat} (h : x.Told u i k) (hprotected : Protected u x y (.send k))
    (hk : y.Concerns u k) (hattached : y.attached u = some k) : y.Told u i k := by
  obtain ⟨-, hheard, hkept⟩ := hprotected hk
  obtain ⟨copy, hconversation, hcopy⟩ := h
  refine ⟨copy, ?_, (hkept.attached hattached).2 copy hcopy⟩
  rwa [hheard, hkept.version]

/-- Protected state stays tidy. -/
theorem Tidy.protected {n : LockName} (hxy : Always x y) (h : x.Tidy u n)
    (hprotected : Protected u x y n) : y.Tidy u n := by
  cases n with
  | lifecycle s =>
    intro hs
    have hs' := hs.trans hxy.session
    rcases (hprotected hs').state with hstate | ⟨-, hfailed⟩
    · rw [hstate]
      exact h hs'
    · exact .inr (.inr (.inr hfailed))
  | provider s => trivial
  | writer c => trivial
  | send k =>
    intro hk i hi hattached
    obtain ⟨hk', -, hkept⟩ := hprotected hk
    exact (h hk' i (hkept.front i hi).1 (hkept.attached hattached).1).protected hprotected hk
      hattached

/-! ## Tickets -/

theorem Serves.refl (u : String) (x : Scene) (n : LockName) (t : Nat) : Serves u x x n t :=
  ⟨fun h => ⟨h, .refl u x n⟩, fun hne heq => absurd heq hne⟩

theorem Serves.trans {n : LockName} {t : Nat} (hxy : Always x y) (hyz : Always y z)
    (h : Serves u x y n t) (h' : Serves u y z n t) : Serves u x z n t := by
  constructor
  · intro hx
    obtain ⟨hy, hprotected⟩ := h.1 hx
    obtain ⟨hz, hprotected'⟩ := h'.1 hy
    exact ⟨hz, hprotected.trans hxy hprotected'⟩
  · intro hx hz
    by_cases hy : (y.lock n).holder = some t
    · exact (h.2 hx hy).protected hyz (h'.1 hy).2
    · exact h'.2 hy hz

/-! ## Stillness -/

theorem Still.refl (u : String) (x : Scene) : Still u x x where
  heard _ := rfl
  synchronizers := rfl
  lock _ := rfl
  text := rfl
  phase := rfl
  documents := .inl rfl
  front _ h := ⟨h, rfl⟩
  state h := h

theorem Still.trans (h : Still u x y) (h' : Still u y z) : Still u x z where
  heard i := (h'.heard i).trans (h.heard i)
  synchronizers := h'.synchronizers.trans h.synchronizers
  lock k := (h'.lock k).trans (h.lock k)
  text := h'.text.trans h.text
  phase := h'.phase.trans h.phase
  documents := by
    rcases h'.documents with heq | hempty
    · rw [heq]
      exact h.documents
    · exact .inr hempty
  front i hi :=
    have hy := h'.front i hi
    ⟨(h.front i hy.1).1, hy.2.trans (h.front i hy.1).2⟩
  state hz := h.state (h'.state hz)

/-! ## What is guaranteed and relied on -/

theorem Guarantee.refl (u : String) (a : Actor) (x : Scene) : Guarantee u a x x where
  always := .refl x
  tickets n t _ _ := .refl u x n t
  given _ _ h h' := absurd (Nat.lt_of_le_of_lt h h') (Nat.lt_irrefl _)
  still _ := .refl u x
  alone := rfl
  text := rfl
  phase := rfl

theorem Guarantee.trans (h : Guarantee u a x y) (h' : Guarantee u a y z) : Guarantee u a x z where
  always := h.always.trans h'.always
  tickets n t ht hother := by
    refine (h.tickets n t ht hother).trans h.always h'.always (h'.tickets n t ?_ ?_)
    · exact Nat.lt_of_lt_of_le ht (h.always.next n)
    · rwa [h.always.owner n t ht]
  given k t ht hz := by
    by_cases hy : t < (y.lock (.send k)).next
    · exact (h'.always.owner _ t hy).trans (h.given k t ht hy)
    · exact h'.given k t (Nat.le_of_not_lt hy) hz
  still ha := (h.still ha).trans (h'.still ha)
  alone := h'.alone.trans h.alone
  text := h'.text.trans h.text
  phase := h'.phase.trans h.phase

theorem Rely.refl (u : String) (a : Actor) (x : Scene) : Rely u a x x where
  always := .refl x
  tickets n t _ _ := .refl u x n t
  given _ _ h h' := absurd (Nat.lt_of_le_of_lt h h') (Nat.lt_irrefl _)
  still _ _ := .refl u x
  alone _ := rfl

theorem Rely.trans (h : Rely u a x y) (h' : Rely u a y z) : Rely u a x z where
  always := h.always.trans h'.always
  tickets n t ht hown := by
    refine (h.tickets n t ht hown).trans h.always h'.always (h'.tickets n t ?_ ?_)
    · exact Nat.lt_of_lt_of_le ht (h.always.next n)
    · rwa [h.always.owner n t ht]
  given k t ht hz := by
    by_cases hy : t < (y.lock (.send k)).next
    · rw [h'.always.owner _ t hy]
      exact h.given k t ht hy
    · exact h'.given k t (Nat.le_of_not_lt hy) hz
  still ha halone := (h.still ha halone).trans (h'.still ha ((h.alone ha).trans halone))
  alone ha := (h'.alone ha).trans (h.alone ha)

/-- What one actor guarantees another one may rely on. Two calls never run at once when
calls take turns. -/
theorem Guarantee.rely (h : Guarantee u a x y) (hne : a.id ≠ b.id)
    (hcalls : x.alone = true → b.isCall = true → a.isCall = false) : Rely u b x y where
  always := h.always
  tickets n t ht hown := h.tickets n t ht (by rw [hown]; exact hne.symm)
  given k t ht hy := by
    rw [h.given k t ht hy]
    exact hne
  still hb halone := h.still (hcalls halone hb)
  alone _ := h.alone

end LanguageHub.Scene
