import LanguageHub.Proofs.Hub.Copies
import LanguageHub.Proofs.Session.Speaking

/-!
# Holding a send lock

A call that holds the send lock of a synchronizer knows that the server has the document open
as the synchronizer takes it to be, if the session speaks with that server. When it gives the
lock back this is so again.
-/

namespace LanguageHub

open Routine Pact HubMoment

namespace Scene

variable {u v : String} {a : Actor} {x y : Scene} {k tk : Nat} {turns : Bool} {content : Buffer}
  {n : DocumentNotice}

/-- The call holds the send lock of a synchronizer with document `v`, and no other send lock. -/
structure Sends (a : Actor) (turns : Bool) (content : Buffer) (v : String) (k tk : Nat)
    (x : Scene) : Prop where
  holds : x.Holds a (.send k) tk
  basis : x.Basis a turns content [(k, tk)]
  known : k < x.synchronizers.length
  uri : (x.synchronizer k).uri = v

/-- If it is the document, the server has it open as the synchronizer takes it to be. -/
def Agreed (u v : String) (k : Nat) (x : Scene) : Prop :=
  v = u → ∀ i, x.Front i → x.attached u = some k ∧ x.Told u i k

/-- Once told of the notice, the server has the document open as the synchronizer takes it
to be. -/
def Awaits (u : String) (k : Nat) (n : DocumentNotice) (x : Scene) : Prop :=
  ∀ i, x.Front i → x.attached u = some k ∧ ∃ version copy,
    DocumentNotice.Conversation (x.heard u i) version copy ∧
      n.follow version = some (some (x.synchronizer k).version) ∧ x.Mirrors k (n.copied copy)

/-- The call is to tell the server of a notice. -/
structure MustTell (u : String) (a : Actor) (turns : Bool) (content : Buffer) (v : String)
    (k tk : Nat) (n : DocumentNotice) (x : Scene) : Prop
    extends x.Sends a turns content v k tk where
  about : n.uri = v
  awaits : v = u → x.Awaits u k n

theorem Sends.concerns (h : x.Sends a turns content v k tk) (hv : v = u) : x.Concerns u k :=
  ⟨h.known, h.uri.trans hv⟩

theorem Sends.maySpeak (h : x.Sends a turns content v k tk) (ha : a.isCall = true) (hv : v = u) :
    x.MaySpeak u a k tk :=
  ⟨ha, h.concerns hv, h.holds⟩

theorem Sends.tells (h : x.Sends a turns content v k tk) (htells : Tells u a k n x y) :
    y.Sends a turns content v k tk where
  holds := htells.holds _ _ (by simp) h.holds
  basis := htells.basis _ _ _ h.basis
  known := Nat.lt_of_lt_of_le h.known htells.always.synchronizers
  uri := ((htells.always.synchronizer k h.known).1).trans h.uri

theorem Tells.agreed (h : Tells u a k n x y) (huri : n.uri = v) (hx : v = u → x.Awaits u k n) :
    y.Agreed u v k := by
  intro hv i hi
  have hkept := h.kept (huri.trans hv)
  obtain ⟨hfront, hstays⟩ := hkept.front i hi
  obtain ⟨hattached, version, copy, hconversation, hnext, hmirrors⟩ := hx hv i hfront
  refine ⟨hstays hattached, n.copied copy, ?_, (hkept.attached (hstays hattached)).2 _ hmirrors⟩
  rw [hkept.version]
  exact h.conversation (huri.trans hv) hi hconversation hnext

theorem Awaits.expects (h : x.Awaits u k n) : x.Expects u n := fun i hi =>
  have ⟨_, version, copy, hconversation, hnext, _⟩ := h i hi
  ⟨version, copy, _, hconversation, hnext⟩

/-! ## Tickets -/

theorem Basis.enter (h : x.Basis a turns content []) (k : Nat) :
    (x.enter (.send k) a.id).Basis a turns content [(k, (x.lock (.send k)).next)] where
  alone := h.alone
  own k' t ht hown := by
    by_cases hnew : LockName.send k' = .send k ∧ t = (x.lock (.send k)).next
    · obtain ⟨hk', rfl⟩ := hnew
      obtain rfl := LockName.send.inj hk'
      exact List.mem_singleton.mpr rfl
    · have hown' : x.owner (.send k') t = a.id := (if_neg hnew).symm.trans hown
      rcases enter_lock_cases (x := x) (n := .send k) (t := a.id) (.send k') with
        ⟨hk', heq⟩ | ⟨-, heq⟩
      · rw [heq] at ht
        rcases Lock.mem_tickets_of_enter ht with hold | hlast
        · rw [← hk'] at hold
          exact absurd (h.own k' t hold hown') (by simp)
        · exact absurd ⟨hk', hlast⟩ hnew
      · rw [heq] at ht
        exact absurd (h.own k' t ht hown') (by simp)
  text := h.text
  phase := h.phase

theorem Basis.leave (h : x.Basis a turns content [(k, tk)]) (hvalid : (x.lock (.send k)).Valid) :
    (x.leave (.send k) tk).Basis a turns content [] where
  alone := h.alone
  own k' t ht hown := by
    have hne : ¬ (k' = k ∧ t = tk) := by
      rintro ⟨rfl, rfl⟩
      have hself : (x.leave (.send k') t).lock (.send k') = (x.lock (.send k')).leave t :=
        if_pos rfl
      rw [hself, hvalid.tickets_leave] at ht
      simp at ht
    have hmem := h.own k' t (mem_tickets_of_leave ht) hown
    exact absurd (Prod.mk.inj (List.mem_singleton.mp hmem)) hne
  text := h.text
  phase := h.phase

/-- Who finds a document connected may come for its send lock. -/
theorem Filed.mayEnter (h : x.Filed) (ha : a.isCall = true)
    (hk : List.lookup v x.documents = some k) : MayEnter u a x (.send k) :=
  have hfiled := h.of_lookup hk
  ⟨ha, hfiled.1, fun hconcerns => (hfiled.2.symm.trans hconcerns.2) ▸ hk⟩

/-- A call that has come for a send lock, once it holds the lock. -/
theorem sends_of_entered (hy : y.Inv u) (ha : a.isCall = true) (hbasis : x.Basis a turns content [])
    (hk : k < x.synchronizers.length ∧ (x.synchronizer k).uri = v)
    (hrely : (x.enter (.send k) a.id).Rely u a y)
    (hheld : (y.lock (.send k)).holder = some (x.lock (.send k)).next) :
    y.Sends a turns content v k (x.lock (.send k)).next where
  holds := holds_of_entered hrely hheld
  basis := (hbasis.enter k).rely ha hrely hy
  known := Nat.lt_of_lt_of_le hk.1 hrely.always.synchronizers
  uri := ((hrely.always.synchronizer k hk.1).1).trans hk.2

/-- Who has come for the send lock of a connected document finds the server and the
synchronizer agreed. -/
theorem agreed_of_entered (hx : x.Inv u) (hy : y.Inv u) (ha : a.isCall = true)
    (hbasis : x.Basis a turns content []) (hk : List.lookup v x.documents = some k)
    (hrely : (x.enter (.send k) a.id).Rely u a y)
    (hheld : (y.lock (.send k)).holder = some (x.lock (.send k)).next) : y.Agreed u v k := by
  intro hv i hi
  have hsends := sends_of_entered hy ha hbasis (hx.filed.of_lookup hk) hrely hheld
  have hspeak := hsends.maySpeak ha hv
  have hattached : y.attached u = some k := by
    cases hturns : turns with
    | true =>
      -- Nobody else connects or disconnects documents.
      have hstill := hrely.still ha (hbasis.alone.trans hturns)
      rw [attached, (hstill.front i hi).2, ← hv]
      exact hk
    | false =>
      have halone : y.alone = false := hsends.basis.alone.trans hturns
      cases hattached : y.attached u with
      | none => exact absurd (hy.locked.quiet halone hi.1 hattached) hspeak.not_quiet
      | some k' => rw [hspeak.eq_of_attached hy.locked hattached]
  exact ⟨hattached, tidy_of_entered hx hrely hheld (hsends.concerns hv) i hi hattached⟩

/-- A lock that is given back is tidy, and who speaks with the server finds that out. -/
theorem Sends.tidy (h : x.Sends a turns content v k tk) (hagreed : x.Agreed u v k) :
    x.Tidy u (.send k) := fun hconcerns i hi _ =>
  (hagreed (h.uri.symm.trans hconcerns.2) i hi).2

theorem Sends.closed (h : x.Sends a turns content v k tk) (hagreed : x.Agreed u v k)
    (hx : x.Inv u) (i : Nat) (hi : x.Front i) (hnone : x.attached u = none)
    (hquiet : (x.leave (.send k) tk).Quiet u) : x.Closed u i := by
  by_cases hv : v = u
  · exact absurd ((hagreed hv i hi).1.symm.trans hnone) (by simp)
  · refine hx.closed i hi hnone (quiet_of_quiet_leave (fun k' heq hconcerns => ?_) hquiet)
    obtain rfl := LockName.send.inj heq
    exact hv (h.uri.symm.trans hconcerns.2)

end Scene

/-! ## Telling -/

variable {s : Nat} {u v : String} {a : Actor} {k tk : Nat} {turns : Bool} {content : Buffer}
  {n : DocumentNotice} {α : Type} {F : Scene → Prop}

/-- What depends on the synchronizers alone, and only if calls take turns. -/
def Scene.Rests (turns : Bool) (F : Scene → Prop) : Prop :=
  ∀ x y : Scene, x.alone = turns → (turns = true → y.synchronizers = x.synchronizers) → F x → F y

theorem reaches_tell (ha : a.isCall = true) (hF : Scene.Rests turns F) :
    Reaches (fun m : HubMoment s u a => m.scene.MustTell u a turns content v k tk n ∧ F m.scene)
      (Session.tell s n)
      fun _ m => m.scene.Sends a turns content v k tk ∧ m.scene.Agreed u v k ∧ F m.scene := by
  intro m hm h
  obtain ⟨⟨hsends, huri, hawaits⟩, hfact⟩ := h
  refine Session.keeps_tell (k := k) hm ha (fun hu => ?_) fun m' _ hm' htells => ⟨hm', ?_⟩
  · have hv := huri.symm.trans hu
    exact ⟨⟨tk, hsends.maySpeak ha hv⟩, (hawaits hv).expects⟩
  · refine ⟨hsends.tells htells.scene, htells.scene.agreed huri hawaits, ?_⟩
    exact hF _ _ hsends.basis.alone
      (fun hturns => htells.scene.synchronizers (hsends.basis.alone.trans hturns)) hfact

/-- A program for which a call holds the send lock of a connected document. -/
theorem reaches_withSend {p : Program α} {Q : α → Scene → Prop} (ha : a.isCall = true)
    (hp : ∀ tk, Reaches (fun m : HubMoment s u a => m.scene.Sends a turns content v k tk ∧
        m.scene.Agreed u v k) p
      fun b m => m.scene.Sends a turns content v k tk ∧ m.scene.Agreed u v k ∧ Q b m.scene)
    (hQ : ∀ b x tk, Q b x → Q b (x.leave (.send k) tk)) :
    Reaches (fun m : HubMoment s u a => m.scene.Basis a turns content [] ∧
        List.lookup v m.scene.documents = some k) (Program.withLock (.send k) p)
      fun b m => m.scene.Basis a turns content [] ∧ Q b m.scene := by
  intro m hm h
  obtain ⟨hbasis, hk⟩ := h
  have hinv : m.scene.Inv u := hm.inv
  refine keeps_withLock hm (hinv.filed.mayEnter ha hk) (fun _ _ _ => trivial)
    fun m₁ hm₁ hrely _ hholds _ => ?_
  have hsends := Scene.sends_of_entered hm₁.inv ha hbasis (hinv.filed.of_lookup hk) hrely
    hholds.holder
  have hagreed := Scene.agreed_of_entered hinv hm₁.inv ha hbasis hk hrely hholds.holder
  refine (hp _ m₁ hm₁ ⟨hsends, hagreed⟩).mono fun m₂ b hgoal => ?_
  obtain ⟨hm₂, hsends₂, hagreed₂, hQ₂⟩ := hgoal
  refine ⟨sound_leave hm₂ hsends₂.holds.owner (fun _ => hsends₂.tidy hagreed₂)
    (hsends₂.closed hagreed₂ hm₂.inv) fun hno => absurd (ha.symm.trans hno) (by simp), ?_, ?_⟩
  · rw [scene_leave _ _ (voiced_of_sound hm₂)]
    exact hsends₂.basis.leave ((Scene.Inv.locked hm₂.inv).valid _)
  · rw [scene_leave _ _ (voiced_of_sound hm₂)]
    exact hQ b _ _ hQ₂

end LanguageHub
