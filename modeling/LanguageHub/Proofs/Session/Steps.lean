import LanguageHub.Proofs.Client.Calls
import LanguageHub.Proofs.Hub.Turns

/-!
# Steps of starting and stopping

Whoever has a session's turn may move it to another state, forget its documents, make a
client and let the session speak through it. A session only comes to be started while nobody
is about to speak of the document, and over a link on which nobody has spoken of it yet.
-/

/-!
## Taking a session down

A session may lose its connection at any time: it fails, and its client and its link go.
Nobody else notices more than that the session speaks no more. Saying goodbye and telling a
server its settings are nothing that a document notices either.
-/

namespace LanguageHub

open Routine Pact HubMoment

/-! ### Outlines -/

namespace Hub

variable {s : Nat} {h : Hub}

/-- A change of the session that keeps its state, its documents and its client. -/
theorem outline_onSession_same {i : Nat} {f : Session → Session}
    (hstate : ∀ x, (f x).state = x.state) (hdocuments : ∀ x, (f x).documents = x.documents)
    (hrunning : ∀ x, (f x).running = x.running) : (h.onSession i f).outline s = h.outline s := by
  have hsession : ∀ g : Session → Prop, (∀ x, g x → g (f x)) → g (h.session s) →
      g ((h.onSession i f).session s) := by
    intro g hg hs
    unfold session onSession
    rw [getD_modify]
    split
    · exact hg _ hs
    · exact hs
  have hlength : (h.onSession i f).sessions.length = h.sessions.length := by simp [onSession]
  have hstate' : ((h.onSession i f).session s).state = (h.session s).state :=
    hsession (·.state = _) (fun x hx => (hstate x).trans hx) rfl
  have hdocuments' : ((h.onSession i f).session s).documents = (h.session s).documents :=
    hsession (·.documents = _) (fun x hx => (hdocuments x).trans hx) rfl
  have hrunning' : ((h.onSession i f).session s).running = (h.session s).running :=
    hsession (·.running = _) (fun x hx => (hrunning x).trans hx) rfl
  simp only [outline, hstate', hdocuments', hrunning', hlength]
  rfl

theorem outline_enter (hs : (h.outline s).isKnown = true) (state : ServerState) :
    (Session.enter s state h).outline s = { h.outline s with state := state } := by
  unfold Session.enter
  dsimp only
  split
  · rename_i heq
    rw [← heq]
    rfl
  · rw [outline_emit, outline_onSession hs]
    rfl

theorem outline_fail (hs : (h.outline s).isKnown = true) (e : HubError) :
    (Session.fail s e h).outline s = { h.outline s with state := .failed } := by
  let h' := h.onSession s fun session => { session with lastError := some e.message }
  have hsame : h'.outline s = h.outline s :=
    outline_onSession_same (fun _ => rfl) (fun _ => rfl) fun _ => rfl
  have henter : (Session.enter s .failed h').outline s = { h.outline s with state := .failed } := by
    rw [outline_enter (by rwa [hsame]), hsame]
  change (if _ then _ else Session.enter s .failed h').outline s = _
  split
  · exact henter
  · exact henter

theorem outline_dropClient (hs : (h.outline s).isKnown = true) :
    (Session.dropClient s h).outline s = { h.outline s with speaker := none } := by
  unfold Session.dropClient
  split
  · rename_i hrunning
    have hspeaker : (h.outline s).speaker = none := by simp [outline, hrunning]
    rw [← hspeaker]
  · rename_i r _
    exact (outline_onClient (f := Client.release) (fun _ => rfl) fun _ => rfl).trans
      (outline_onSession (f := fun session => { session with running := none }) hs)

end Hub

/-! ### Programs -/

namespace Session

variable {s : Nat} {u : String} {a : Actor} {P : Scene → Prop} {α : Type}

theorem neutral_onSession {i : Nat} {f : Session → Session} (hstate : ∀ x, (f x).state = x.state)
    (hdocuments : ∀ x, (f x).documents = x.documents)
    (hrunning : ∀ x, (f x).running = x.running) :
    Neutral s u a P (modify (Hub.onSession i f) : Program Unit) :=
  neutral_modify fun _ => Hub.outline_onSession_same hstate hdocuments hrunning

theorem neutral_dropClient : Neutral s u a P (modify (dropClient s) : Program Unit) :=
  fun m hm _ => neutralAt_fade m.scene.state none m.scene.isOpen m.scene.isDue hm
    (Hub.outline_dropClient (known hm))
    ⟨.inl rfl, .inr rfl, fun _ h => h, fun _ h => h⟩ (.inl rfl)

theorem neutral_fail {m : HubMoment s u a} (hm : m.Sound) (hstarted : m.scene.state = .started)
    (e : HubError) : NeutralAt m (modify (fail s e) : Program Unit) :=
  neutralAt_fade .failed m.scene.speaker m.scene.isOpen m.scene.isDue hm
    (Hub.outline_fail (known hm) e)
    ⟨.inr (by simp), .inl rfl, fun _ h => h, fun _ h => h⟩ (.inr ⟨hstarted, rfl⟩)

theorem neutral_endServer (hP : Stable P) (link : Nat) : Neutral s u a P (endServer link) :=
  .bind hP neutral_get fun h => .bind hP neutral_get fun h' => by
    split
    · exact .bind hP (neutral_modifyGet fun _ => rfl) fun deadline =>
        .bind hP (neutral_waitUntil _) fun _ =>
          neutral_modify fun _ => Hub.outline_onLink (fun _ => rfl) fun _ => rfl
    · exact neutral_pure _

theorem neutral_tearDown (hP : Stable P) : Neutral s u a P (tearDown s) := by
  refine .bind hP neutral_dropClient fun _ => .bind hP (.withLock hP (by simp) ?_) fun _ =>
    neutral_onSession (fun _ => rfl) (fun _ => rfl) fun _ => rfl
  refine .bind hP (neutral_modifyGet fun h => Hub.outline_onSession_same (fun _ => rfl)
    (fun _ => rfl) fun _ => rfl) fun link => ?_
  cases link with
  | some link => exact neutral_endServer hP link
  | none => exact neutral_pure _

/-- The client of the session is one of the clients. -/
theorem speaker_lt {m : HubMoment s u a} (hm : m.Sound) {r : Running}
    (hr : (m.state.session s).running = some r) : r.client < m.scene.clients := by
  have hspeaker : m.scene.speaker = some r.client := congrArg (Option.map Running.client) hr
  exact (Scene.Inv.wired hm.inv).spoken _ ((Scene.Inv.wired hm.inv).speaker _ hspeaker)

theorem neutral_sayGoodbye : Neutral s u a P (sayGoodbye s) := by
  refine fun m hm _ => neutralAt_get hm ?_
  have hm' := (sound_silent (h := m.state) hm rfl).1
  cases hrunning : (m.state.session s).running with
  | none => exact neutral_pure (P := fun _ => True) _ _ hm' trivial
  | some r =>
    dsimp only
    split
    · have hr : r.client < (scene (m.set m.state)).clients := speaker_lt hm' hrunning
      have hP := stable_client r.client
      exact Neutral.bind hP
        (Client.neutral_holding hP (Client.neutral_shutDown hP (fun _ h => h) _))
        (fun _ => neutral_pure _) _ hm' hr
    · exact neutral_pure (P := fun _ => True) _ _ hm' trivial

theorem neutral_pushSettings : Neutral s u a P (pushSettings s) := by
  refine fun m hm _ => neutralAt_get hm ?_
  have hm' := (sound_silent (h := m.state) hm rfl).1
  split
  · exact neutral_pure (P := fun _ => True) _ _ hm' trivial
  · split
    · exact neutral_pure (P := fun _ => True) _ _ hm' trivial
    · rename_i c hclient
      have hr : c < (scene (m.set m.state)).clients := by
        unfold client? at hclient
        split at hclient
        · rename_i r _ hrunning
          cases hclient
          exact speaker_lt hm' hrunning
        · cases hclient
      have hP := stable_client c
      exact Client.neutral_holding hP (Client.neutral_notify hP (fun _ h => h) (by decide) _) _ hm'
        hr

theorem neutral_watchConnection (hP : Stable P) (c epoch : Nat) :
    Neutral s u a P (watchConnection s c epoch) := by
  refine .bind hP (neutral_waitUntil _) fun _ => fun m hm hPm => neutralAt_get hm ?_
  obtain ⟨hm', hlater⟩ := sound_silent (h := m.state) hm rfl
  dsimp only
  split
  · rename_i hboth
    refine (neutral_fail hm' hboth.2 _).bind fun m'' _ hm'' hlater' => ?_
    exact neutral_tearDown hP m'' hm''
      (hP _ _ (hlater.rely.always.trans hlater'.rely.always) hPm)
  · exact neutral_pure (P := fun _ => True) _ _ hm' trivial

end Session

end LanguageHub

/-! ## Steps of starting and stopping -/

namespace LanguageHub

open Routine Pact HubMoment

namespace Scene

variable {u : String} {a : Actor} {x : Scene} {n : LockName} {c i t : Nat} {due : Bool}

/-! ### Forgetting the documents -/

/-- The session has no documents. -/
def clear (x : Scene) : Scene := { x with documents := [] }

theorem Inv.clear (h : x.Inv u) (hstate : x.state ≠ .started) : x.clear.Inv u where
  known := h.known
  wired := ⟨h.wired.1, h.wired.2, h.wired.3, h.wired.4, h.wired.5, h.wired.6, h.wired.7⟩
  filed := ⟨List.nodup_nil, fun v k hmem => (nomatch hmem), fun _ => rfl⟩
  locked := ⟨h.locked.valid, h.locked.inUse, fun k hk => (nomatch hk), h.locked.exclusive,
    fun _ hstarted => absurd hstarted hstate⟩
  tidy n hfree := by
    have htidy : x.Tidy u n := h.tidy n hfree
    cases n with
    | lifecycle s => exact htidy
    | provider s => trivial
    | writer c => trivial
    | send k => exact fun _ i hi => absurd hi.1 hstate
  closed i hi := absurd hi.1 hstate
  recalled k hk := nomatch hk

theorem guarantee_clear (hstate : x.state ≠ .started) : x.Guarantee u a x.clear where
  always :=
    { Always.refl x with }
  tickets n t _ _ := by
    refine ⟨fun hheld => ⟨hheld, ?_⟩, fun hne heq => absurd heq hne⟩
    cases n with
    | lifecycle s =>
      exact fun _ => ⟨.inl rfl, rfl, .inl rfl, fun _ h => h, .inr rfl, fun _ h => h⟩
    | provider s => trivial
    | writer c => exact fun _ => rfl
    | send k =>
      exact fun hk => ⟨hk, fun _ => rfl, rfl, fun i hi => absurd hi.1 hstate,
        fun hnone => (nomatch hnone)⟩
  given _ _ ht hy := absurd (Nat.lt_of_le_of_lt ht hy) (Nat.lt_irrefl _)
  still _ :=
    { Still.refl u x with
      documents := .inr rfl
      front := fun i hi => absurd hi.1 hstate }
  alone := rfl
  text := rfl
  phase := rfl

/-! ### A new link -/

/-- There is one more link, which may have failed already. -/
def addLink (x : Scene) (due : Bool) : Scene :=
  { x with links := x.links + 1, isDue := fun i => x.isDue i || (i == x.links && due) }

theorem Front.of_addLink (h : (x.addLink due).Front i) : x.Front i := by
  obtain ⟨hstarted, c, hc, hopen, hlink, hdue⟩ := h
  simp only [addLink, Bool.or_eq_false_iff] at hdue
  exact ⟨hstarted, c, hc, hopen, hlink, hdue.1⟩

theorem Inv.addLink (h : x.Inv u) (due : Bool) : (x.addLink due).Inv u where
  known := h.known
  wired := { h.wired with links := fun c hc => Nat.lt_succ_of_lt (h.wired.links c hc) }
  filed := ⟨h.filed.1, h.filed.2, h.filed.3⟩
  locked := ⟨h.locked.1, h.locked.2, h.locked.3, h.locked.4, h.locked.5⟩
  tidy n hfree := by
    have htidy : x.Tidy u n := h.tidy n hfree
    cases n with
    | lifecycle s => exact htidy
    | provider s => trivial
    | writer c => trivial
    | send k => exact fun hk i hi hattached => htidy hk i hi.of_addLink hattached
  closed i hi hnone hquiet := h.closed i hi.of_addLink hnone hquiet
  recalled := h.recalled

theorem guarantee_addLink (x : Scene) (due : Bool) : x.Guarantee u a (x.addLink due) where
  always :=
    { Always.refl x with
      links := Nat.le_succ _
      isDue := fun i hi => by simp [addLink, hi] }
  tickets n t _ _ := by
    refine ⟨fun hheld => ⟨hheld, ?_⟩, fun hne heq => absurd heq hne⟩
    cases n with
    | lifecycle s =>
      exact fun _ => ⟨.inl rfl, rfl, .inl rfl, fun _ h => h, .inl rfl, fun _ h => h⟩
    | provider s => trivial
    | writer c => exact fun _ => rfl
    | send k =>
      exact fun hk => ⟨hk, fun _ => rfl, rfl, fun i hi => ⟨hi.of_addLink, id⟩,
        fun h => ⟨h, fun _ => id⟩⟩
  given _ _ ht hy := absurd (Nat.lt_of_le_of_lt ht hy) (Nat.lt_irrefl _)
  still _ := { Still.refl u x with front := fun i hi => ⟨hi.of_addLink, rfl⟩ }
  alone := rfl
  text := rfl
  phase := rfl

/-! ### A new client -/

/-- Nobody speaks over the link. -/
def Unused (x : Scene) (i : Nat) : Prop := i < x.links ∧ ∀ c, c < x.clients → x.linkOf c ≠ i

/-- There is one more client, which speaks over the link. -/
def addClient (x : Scene) (i : Nat) : Scene :=
  { x with
    clients := x.clients + 1
    linkOf := fun c => if c = x.clients then i else x.linkOf c
    isOpen := fun c => c == x.clients || x.isOpen c }

theorem linkOf_addClient_self : (x.addClient i).linkOf x.clients = i := if_pos rfl

theorem linkOf_addClient (hc : c < x.clients) : (x.addClient i).linkOf c = x.linkOf c :=
  if_neg (Nat.ne_of_lt hc)

theorem isOpen_addClient (hc : c < x.clients) : (x.addClient i).isOpen c = x.isOpen c := by
  have hne : (c == x.clients) = false := by simpa using Nat.ne_of_lt hc
  simp [addClient, hne]

theorem Front.of_addClient (hwired : x.Wired u) {j : Nat} (h : (x.addClient i).Front j) :
    x.Front j := by
  obtain ⟨hstarted, c, hc, hopen, hlink, hdue⟩ := h
  have hlt : c < x.clients := hwired.spoken c (hwired.speaker c hc)
  rw [isOpen_addClient hlt] at hopen
  rw [linkOf_addClient hlt] at hlink
  exact ⟨hstarted, c, hc, hopen, hlink, hdue⟩

theorem Wired.addClient (h : x.Wired u) (hi : x.Unused i) : (x.addClient i).Wired u where
  speaker := h.speaker
  spoken c hc := Nat.lt_succ_of_lt (h.spoken c hc)
  links c hc := by
    rcases Nat.lt_succ_iff_lt_or_eq.mp hc with hc | rfl
    · rw [linkOf_addClient hc]
      exact h.links c hc
    · rw [linkOf_addClient_self]
      exact hi.1
  injective c d hc hd heq := by
    rcases Nat.lt_succ_iff_lt_or_eq.mp hc with hc | rfl <;>
      rcases Nat.lt_succ_iff_lt_or_eq.mp hd with hd | rfl
    · rw [linkOf_addClient hc, linkOf_addClient hd] at heq
      exact h.injective c d hc hd heq
    · rw [linkOf_addClient hc, linkOf_addClient_self] at heq
      exact absurd heq (hi.2 c hc)
    · rw [linkOf_addClient hd, linkOf_addClient_self] at heq
      exact absurd heq.symm (hi.2 d hd)
    · rfl
  bare j hj := h.bare j fun c hc heq =>
    hj c (Nat.lt_succ_of_lt hc) ((linkOf_addClient hc).trans heq)
  conforms := h.conforms
  voiced j hj := by
    obtain ⟨c, hc, hlink⟩ := h.voiced j hj
    exact ⟨c, hc, (linkOf_addClient (h.spoken c hc)).trans hlink⟩

theorem Inv.addClient (h : x.Inv u) (hi : x.Unused i) : (x.addClient i).Inv u where
  known := h.known
  wired := h.wired.addClient hi
  filed := ⟨h.filed.1, h.filed.2, h.filed.3⟩
  locked := ⟨h.locked.1, h.locked.2, h.locked.3, h.locked.4, h.locked.5⟩
  tidy n hfree := by
    have htidy : x.Tidy u n := h.tidy n hfree
    cases n with
    | lifecycle s => exact htidy
    | provider s => trivial
    | writer c => trivial
    | send k => exact fun hk j hj hattached => htidy hk j (hj.of_addClient h.wired) hattached
  closed j hj hnone hquiet := h.closed j (hj.of_addClient h.wired) hnone hquiet
  recalled := h.recalled

theorem guarantee_addClient (h : x.Inv u) (ht : x.Holds a (.lifecycle x.session) t)
    (hnew : x.isOpen x.clients = true) : x.Guarantee u a (x.addClient i) where
  always :=
    { Always.refl x with
      clients := Nat.le_succ _
      linkOf := fun c hc => linkOf_addClient hc
      isOpen := fun c hc => by
        by_cases hlast : c = x.clients
        · rw [hlast]
          exact hnew
        · simpa [addClient, hlast] using hc }
  tickets n t' _ hother := by
    refine ⟨fun hheld => ⟨hheld, ?_⟩, fun hne heq => absurd heq hne⟩
    cases n with
    | lifecycle s =>
      rintro rfl
      exact absurd hheld (ht.not_other hother)
    | provider s => trivial
    | writer c => exact fun _ => rfl
    | send k =>
      exact fun hk => ⟨hk, fun _ => rfl, rfl, fun i hi => ⟨hi.of_addClient h.wired, id⟩,
        fun h => ⟨h, fun _ => id⟩⟩
  given _ _ ht hy := absurd (Nat.lt_of_le_of_lt ht hy) (Nat.lt_irrefl _)
  still _ := { Still.refl u x with front := fun i hi => ⟨hi.of_addClient h.wired, rfl⟩ }
  alone := rfl
  text := rfl
  phase := rfl

/-! ### Running -/

/-- The session speaks through this client. -/
def speakThrough (x : Scene) (c : Nat) : Scene :=
  { x with speaker := some c, spoken := fun d => x.spoken d ∨ d = c }

theorem Inv.speakThrough (h : x.Inv u) (hstate : x.state ≠ .started) (hc : c < x.clients) :
    (x.speakThrough c).Inv u where
  known := h.known
  wired :=
    { h.wired with
      speaker := fun d hd => .inr (Option.some.inj hd).symm
      spoken := fun d hd => hd.elim (h.wired.spoken d) fun heq => heq ▸ hc
      voiced := fun i hi =>
        have ⟨d, hd, hlink⟩ := h.wired.voiced i hi
        ⟨d, .inl hd, hlink⟩ }
  filed := ⟨h.filed.1, h.filed.2, h.filed.3⟩
  locked := ⟨h.locked.1, h.locked.2, h.locked.3, h.locked.4, h.locked.5⟩
  tidy n hfree := by
    have htidy : x.Tidy u n := h.tidy n hfree
    cases n with
    | lifecycle s => exact htidy
    | provider s => trivial
    | writer c => trivial
    | send k => exact fun _ i hi => absurd hi.1 hstate
  closed i hi := absurd hi.1 hstate
  recalled := h.recalled

theorem guarantee_speakThrough (hstate : x.state ≠ .started)
    (ht : x.Holds a (.lifecycle x.session) t) : x.Guarantee u a (x.speakThrough c) where
  always := { Always.refl x with spoken := fun _ => .inl }
  tickets n t' _ hother := by
    refine ⟨fun hheld => ⟨hheld, ?_⟩, fun hne heq => absurd heq hne⟩
    cases n with
    | lifecycle s =>
      rintro rfl
      exact absurd hheld (ht.not_other hother)
    | provider s => trivial
    | writer c => exact fun _ => rfl
    | send k =>
      exact fun hk => ⟨hk, fun _ => rfl, rfl, fun i hi => absurd hi.1 hstate,
        fun h => ⟨h, fun _ => id⟩⟩
  given _ _ ht hy := absurd (Nat.lt_of_le_of_lt ht hy) (Nat.lt_irrefl _)
  still _ := { Still.refl u x with front := fun i hi => absurd hi.1 hstate }
  alone := rfl
  text := rfl
  phase := rfl

/-- The session is started. -/
def begin (x : Scene) : Scene := { x with state := .started }

/-- Nothing of the document was said over the link of the session's client. -/
def Fresh (u : String) (x : Scene) : Prop := ∀ c, x.speaker = some c → x.heard u (x.linkOf c) = []

theorem Inv.begin (h : x.Inv u) (hfresh : x.Fresh u) (hdocuments : x.documents = [])
    (hquiet : x.Quiet u) : x.begin.Inv u where
  known := h.known
  wired := ⟨h.wired.1, h.wired.2, h.wired.3, h.wired.4, h.wired.5, h.wired.6, h.wired.7⟩
  filed := ⟨h.filed.1, h.filed.2, fun _ => hdocuments⟩
  locked := ⟨h.locked.1, h.locked.2, h.locked.3, h.locked.4, fun _ _ _ => hquiet⟩
  tidy n hfree := by
    have htidy : x.Tidy u n := h.tidy n hfree
    cases n with
    | lifecycle s => exact fun _ => .inr (.inl rfl)
    | provider s => trivial
    | writer c => trivial
    | send k =>
      intro _ i _ hattached
      have hnone : x.attached u = none := by simp [attached, hdocuments]
      exact absurd (hnone.symm.trans hattached) (by simp)
  closed i hi _ _ := by
    obtain ⟨-, c, hc, -, rfl, -⟩ := hi
    have hnothing : x.begin.heard u (x.begin.linkOf c) = [] := hfresh c hc
    refine ⟨none, ?_⟩
    rw [hnothing]
    exact DocumentNotice.conversation_nil
  recalled := h.recalled

theorem guarantee_begin (hquiet : x.Quiet u) (ha : a.isCall = true)
    (ht : x.Holds a (.lifecycle x.session) t) : x.Guarantee u a x.begin where
  always := { Always.refl x with }
  tickets n t' _ hother := by
    refine ⟨fun hheld => ⟨hheld, ?_⟩, fun hne heq => absurd heq hne⟩
    cases n with
    | lifecycle s =>
      rintro rfl
      exact absurd hheld (ht.not_other hother)
    | provider s => trivial
    | writer c => exact fun _ => rfl
    | send k =>
      intro hk
      have hfree := (Lock.isFree_iff _).mp (hquiet k hk)
      exact absurd (hfree.symm.trans hheld) (by simp)
  given _ _ ht hy := absurd (Nat.lt_of_le_of_lt ht hy) (Nat.lt_irrefl _)
  still hno := absurd (ha.symm.trans hno) (by simp)
  alone := rfl
  text := rfl
  phase := rfl

end Scene

end LanguageHub
