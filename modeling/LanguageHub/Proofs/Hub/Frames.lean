import LanguageHub.Proofs.Hub.Neutral

/-!
# Frames on a link

Whoever holds the outgoing stream of a client puts the bytes of a frame on its link. As long
as nothing about the document arrives whole this changes nothing for anyone; a message about
the document only comes from the call that holds the document's send lock.
-/

namespace LanguageHub

open Routine Pact

namespace Scene

variable {u : String} {a : Actor} {x y : Scene} {c i k t : Nat} {frames : List Outgoing}
  {due : Bool}

/-- The frames on a link are these now, and the link may have failed. -/
def put (x : Scene) (i : Nat) (frames : List Outgoing) (due : Bool) : Scene :=
  { x with
    frames := fun j => if j = i then frames else x.frames j
    isDue := fun j => x.isDue j || (j == i && due) }

/-- The call may speak of the document. -/
structure MaySpeak (u : String) (a : Actor) (x : Scene) (k t : Nat) : Prop where
  isCall : a.isCall = true
  concerns : x.Concerns u k
  holds : x.Holds a (.send k) t

theorem heard_put_self : (x.put i frames due).heard u i = Outgoing.heard u frames := by
  simp [heard, put]

theorem heard_put_of_ne {j : Nat} (h : j ≠ i) :
    (x.put i frames due).heard u j = x.heard u j := by
  simp [heard, put, h]

theorem heard_put (h : Outgoing.heard u frames = x.heard u i) (j : Nat) :
    (x.put i frames due).heard u j = x.heard u j := by
  by_cases hj : j = i
  · rw [hj, heard_put_self, h]
  · exact heard_put_of_ne hj

theorem isDue_of_put {j : Nat} (h : (x.put i frames due).isDue j = false) : x.isDue j = false := by
  simp only [put, Bool.or_eq_false_iff] at h
  exact h.1

theorem Front.of_put {j : Nat} (h : (x.put i frames due).Front j) : x.Front j := by
  obtain ⟨hstarted, c, hc, hopen, hlink, hdue⟩ := h
  exact ⟨hstarted, c, hc, hopen, hlink, isDue_of_put hdue⟩

/-- While a call may speak of the document no other synchronizer of it is used. -/
theorem MaySpeak.eq_of_attached (h : x.MaySpeak u a k t) (hlocked : x.Locked u) {k' : Nat}
    (hk' : x.attached u = some k') : k = k' := by
  by_cases hne : k = k'
  · exact hne
  · have hfree := hlocked.single k' hk' k hne h.concerns
    rw [Lock.isFree_iff, h.holds.holder] at hfree
    cases hfree

theorem MaySpeak.eq_of_held (h : x.MaySpeak u a k t) (hlocked : x.Locked u) {k' t' : Nat}
    (hk' : x.Concerns u k') (hheld : (x.lock (.send k')).holder = some t') : k = k' ∧ t = t' := by
  by_cases hne : k = k'
  · subst hne
    exact ⟨rfl, Option.some.inj (h.holds.holder.symm.trans hheld)⟩
  · rcases hlocked.exclusive k k' h.concerns hk' hne with hfree | hfree
    · rw [Lock.isFree_iff, h.holds.holder] at hfree
      cases hfree
    · rw [Lock.isFree_iff, hheld] at hfree
      cases hfree

theorem MaySpeak.not_quiet (h : x.MaySpeak u a k t) : ¬ x.Quiet u := by
  intro hquiet
  have hfree := hquiet k h.concerns
  rw [Lock.isFree_iff, h.holds.holder] at hfree
  cases hfree

theorem always_put (x : Scene) (i : Nat) (frames : List Outgoing) (due : Bool) :
    x.Always (x.put i frames due) where
  session := rfl
  clients := Nat.le_refl _
  linkOf _ _ := rfl
  isOpen _ h := h
  links := Nat.le_refl _
  isDue j h := by simp [put, h]
  synchronizers := Nat.le_refl _
  synchronizer _ _ := ⟨rfl, rfl⟩
  spoken _ h := h
  next _ := Nat.le_refl _
  owner _ _ _ := rfl
  gone _ _ _ h := h

theorem Wired.put (h : x.Wired u) (hc : c < x.clients)
    (hconforms : ∃ version copy,
      DocumentNotice.Conversation (Outgoing.heard u frames) version copy)
    (hvoiced : Outgoing.heard u frames ≠ [] → ∃ d, x.spoken d ∧ x.linkOf d = x.linkOf c) :
    (x.put (x.linkOf c) frames due).Wired u where
  speaker := h.speaker
  spoken := h.spoken
  links := h.links
  injective := h.injective
  bare j hj := by
    have hne : j ≠ x.linkOf c := fun heq => hj c hc heq.symm
    simpa [Scene.put, hne] using h.bare j hj
  conforms j := by
    by_cases hj : j = x.linkOf c
    · rw [hj, heard_put_self]
      exact hconforms
    · rw [heard_put_of_ne hj]
      exact h.conforms j
  voiced j := by
    by_cases hj : j = x.linkOf c
    · rw [hj, heard_put_self]
      exact hvoiced
    · rw [heard_put_of_ne hj]
      exact h.voiced j

theorem Locked.put (h : x.Locked u) : (x.put i frames due).Locked u :=
  ⟨h.valid, h.inUse, h.single, h.exclusive, h.quiet⟩

/-- What arrives is not about the document, or it comes from who may speak of it. -/
def MayPut (u : String) (a : Actor) (x : Scene) (c : Nat) (frames : List Outgoing) : Prop :=
  Outgoing.heard u frames = x.heard u (x.linkOf c) ∨
    (∃ k t, x.MaySpeak u a k t) ∧ x.spoken c ∧ ∃ version copy,
      DocumentNotice.Conversation (Outgoing.heard u frames) version copy

theorem told_put (h : Outgoing.heard u frames = x.heard u i) {j : Nat} (hj : x.Told u j k) :
    (x.put i frames due).Told u j k := by
  obtain ⟨copy, hconversation, hmirrors⟩ := hj
  exact ⟨copy, by rwa [heard_put h], hmirrors⟩

theorem Inv.put (h : x.Inv u) (hc : c < x.clients) (hmay : MayPut u a x c frames) :
    (x.put (x.linkOf c) frames due).Inv u where
  known := h.known
  wired := by
    refine h.wired.put hc ?_ fun hne => ?_
    · rcases hmay with hsame | ⟨-, -, hconforms⟩
      · rw [hsame]
        exact h.wired.conforms _
      · exact hconforms
    · rcases hmay with hsame | ⟨-, hspoken, -⟩
      · rw [hsame] at hne
        exact h.wired.voiced _ hne
      · exact ⟨c, hspoken, rfl⟩
  filed := ⟨h.filed.1, h.filed.2, h.filed.3⟩
  locked := h.locked.put
  tidy n hfree := by
    have htidy : x.Tidy u n := h.tidy n hfree
    cases n with
    | lifecycle s => exact htidy
    | provider s => trivial
    | writer c' => trivial
    | send k' =>
      intro hk' i hi hattached
      rcases hmay with hsame | ⟨⟨k, t, hspeak⟩, -⟩
      · exact told_put hsame (htidy hk' i hi.of_put hattached)
      · obtain rfl := hspeak.eq_of_attached h.locked hattached
        rw [Lock.isFree_iff] at hfree
        exact absurd (hspeak.holds.holder.symm.trans hfree) (by simp)
  closed i hi hnone hquiet := by
    rcases hmay with hsame | ⟨⟨k, t, hspeak⟩, -⟩
    · obtain ⟨copy, hconversation⟩ := h.closed i hi.of_put hnone hquiet
      exact ⟨copy, by rwa [heard_put hsame]⟩
    · exact absurd hquiet hspeak.not_quiet
  recalled := h.recalled

/-- What the others hold is left alone. -/
theorem protected_put {n : LockName} (h : x.Inv u) (hc : c < x.clients) (hn : n ≠ .writer c)
    (hheard : ∀ k, n = .send k → x.Concerns u k →
      Outgoing.heard u frames = x.heard u (x.linkOf c)) :
    Protected u x (x.put (x.linkOf c) frames due) n := by
  cases n with
  | lifecycle s => exact fun _ => ⟨.inl rfl, rfl, .inl rfl, fun _ h => h, .inl rfl, fun _ h => h⟩
  | provider s => trivial
  | writer d =>
    intro hd
    have hne : x.linkOf d ≠ x.linkOf c := fun heq =>
      hn (congrArg LockName.writer (h.wired.injective d c hd hc heq))
    simp [put, hne]
  | send k =>
    intro hk
    exact ⟨hk, heard_put (hheard k rfl hk), rfl, fun i hi => ⟨hi.of_put, id⟩,
      fun h => ⟨h, fun _ => id⟩⟩

theorem still_put (hsame : Outgoing.heard u frames = x.heard u i) :
    Still u x (x.put i frames due) where
  heard := heard_put hsame
  synchronizers := rfl
  lock _ := rfl
  text := rfl
  phase := rfl
  documents := .inl rfl
  front _ h := ⟨h.of_put, rfl⟩
  state h := h

theorem guarantee_put (h : x.Inv u) (hc : c < x.clients) (hholds : x.Holds a (.writer c) t)
    (hmay : MayPut u a x c frames) :
    x.Guarantee u a (x.put (x.linkOf c) frames due) where
  always := always_put ..
  tickets n t' _ hother := by
    refine ⟨fun hheld => ⟨hheld, protected_put h hc ?_ ?_⟩, fun hne heq => absurd heq hne⟩
    · rintro rfl
      obtain rfl := Option.some.inj (hholds.holder.symm.trans hheld)
      exact hother hholds.owner
    · rintro k' rfl hk'
      rcases hmay with hsame | ⟨⟨k, t₀, hspeak⟩, -⟩
      · exact hsame
      · exact absurd (hspeak.eq_of_held h.locked hk' hheld) fun heq => by
          obtain ⟨rfl, rfl⟩ := heq
          exact hother hspeak.holds.owner
  given _ _ ht hy := absurd (Nat.lt_of_le_of_lt ht hy) (Nat.lt_irrefl _)
  still ha := by
    rcases hmay with hsame | ⟨⟨k, t₀, hspeak⟩, -⟩
    · exact still_put hsame
    · simp [hspeak.isCall] at ha
  alone := rfl
  text := rfl
  phase := rfl

/-- Whoever came for the stream after `x` and holds it puts nothing of the document there. -/
theorem Rely.put (hrely : x.Rely u a y) (h : y.Inv u) (hc : c < y.clients)
    (hholds : y.Holds a (.writer c) t) (hnew : (x.lock (.writer c)).next ≤ t)
    (hsame : Outgoing.heard u frames = y.heard u (y.linkOf c)) :
    x.Rely u a (y.put (y.linkOf c) frames due) where
  always := hrely.always.trans (always_put ..)
  tickets n t' ht' hown := by
    refine (hrely.tickets n t' ht' hown).trans hrely.always (always_put ..) ?_
    refine ⟨fun hheld => ⟨hheld, protected_put h hc ?_ fun _ _ _ => hsame⟩,
      fun hne heq => absurd heq hne⟩
    rintro rfl
    obtain rfl := Option.some.inj (hholds.holder.symm.trans hheld)
    omega
  given := hrely.given
  still ha halone := (hrely.still ha halone).trans (still_put hsame)
  alone := hrely.alone

end Scene

end LanguageHub
