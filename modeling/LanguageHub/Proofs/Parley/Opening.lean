import LanguageHub.Proofs.Parley.Speaking

/-!
# Opening the document

A document is connected with a new synchronizer whose send lock is taken in the same turn.
Nobody else can have the word before the opening was written.
-/

namespace LanguageHub.Parley

open Routine Pact Session
open DocumentNotice (Tells tells_opened)

variable {p : Site} {me k t : Nat} {w : World} {sync : Synchronizer}

/-! ## Connecting -/

abbrev filed (p : Site) (sync : Synchronizer) (h : Hub) : Hub := (addDocument p.session sync h).2

theorem session_filed (hknown : p.session < w.hub.sessions.length) :
    (filed p sync w.hub).session p.session =
      (w.hub.session p.session).attach sync.uri w.hub.synchronizers.length :=
  Hub.session_onSession (h := { w.hub with synchronizers := w.hub.synchronizers ++ [sync] }) _ _
    hknown

theorem attached_filed (hknown : p.session < w.hub.sessions.length) (huri : sync.uri = p.uri) :
    p.attached (filed p sync w.hub) = some w.hub.synchronizers.length := by
  rw [Site.attached, session_filed hknown, Session.synchronizer?, Session.attach,
    List.lookup_append, Hub.lookup_filter, if_pos huri.symm, huri]
  simp

theorem works_filed (hworks : p.Works w.hub) : p.Works (filed p sync w.hub) where
  known := by
    rw [filed, addDocument, Hub.onSession, List.length_modify]
    exact hworks.known
  started := by
    rw [session_filed hworks.known]
    exact hworks.started
  speaker := by
    rw [session_filed hworks.known]
    exact hworks.speaker
  isOpen := hworks.isOpen
  link := hworks.link
  linked := hworks.linked
  fault := hworks.fault

/-- The synchronizer is one of the document, and nothing was shown to it yet. -/
structure IsNew (p : Site) (sync : Synchronizer) : Prop where
  uri : sync.uri = p.uri
  version : sync.version = 1
  collects : sync.Collects [] []

theorem isNew_start {uri : String} (huri : uri = p.uri) (languageId : String)
    (settings : SyncSettings) (text : String) : IsNew p (.start uri languageId settings text) :=
  ⟨huri, rfl, Synchronizer.collects_start ..⟩

section Opening

variable (hw : w.Inv p) (hnone : p.attached w.hub = none) (hnew : IsNew p sync)

/-- The world once the document is connected and the send lock of its synchronizer taken. The two
are one turn of the task: nobody sees a document whose send lock is free and whose opening is not
told. -/
def opening (p : Site) (me : Nat) (sync : Synchronizer) (w : World) : World :=
  (w.move p me (filed p sync w.hub)).move p me
    (Hub.enterLock (.send w.hub.synchronizers.length) (filed p sync w.hub)).2

theorem lock_opening (n : LockName) : (opening p me sync w).hub.lock n =
    if n = .send w.hub.synchronizers.length then (w.hub.lock n).enter.2 else w.hub.lock n := by
  refine (Hub.lock_setLock ..).trans ?_
  split
  · rename_i heq
    rw [heq]
    rfl
  · rfl

theorem synchronizer_opening :
    (opening p me sync w).hub.synchronizer w.hub.synchronizers.length = sync :=
  (Hub.getD_append_singleton ..).trans (if_pos rfl)

theorem length_opening : (opening p me sync w).hub.synchronizers.length =
    w.hub.synchronizers.length + 1 := List.length_append

theorem attached_opening (hw : w.Inv p) (hnew : IsNew p sync) :
    p.attached (opening p me sync w).hub = some w.hub.synchronizers.length :=
  attached_filed hw.works.known hnew.uri

include hw hnone

theorem taken_opening : (opening p me sync w).taken = [] := by
  have hdrained : drained p w.hub (filed p sync w.hub) = [] := by rw [drained, hnone]
  have hfiled : (w.move p me (filed p sync w.hub)).taken = [] := by
    change w.taken ++ drained p w.hub (filed p sync w.hub) = []
    rw [hdrained, (hw.absent hnone).2.1]
    rfl
  exact taken_enter.trans hfiled

include hnew

/-- Nobody can have the word about a document that was not connected. -/
theorem guarantee_opening : Guarantee p me w (opening p me sync w) := by
  have henter : Guarantee p me (w.move p me (filed p sync w.hub)) (opening p me sync w) :=
    ⟨binds_enter fun _ => rfl, rfl⟩
  suffices hfiled : Guarantee p me w (w.move p me (filed p sync w.hub)) from hfiled.trans henter
  refine ⟨?_, rfl⟩
  refine binds_of_protected (fun _ => rfl) (owner_move fun _ => rfl) (fun k hk => ?_)
    fun n t _ _ hheld => ?_
  · rw [hnone] at hk
    cases hk
  · cases n with
    | writer c => exact fun _ => rfl
    | send k =>
      intro hk
      -- The synchronizer is new, so that nobody holds its send lock.
      obtain rfl := Option.some.inj ((attached_filed hw.works.known hnew.uri).symm.trans hk)
      have hfree := hw.unused _ (Nat.le_refl _)
      rw [Lock.isFree_iff, hheld] at hfree
      cases hfree
    | _ => trivial

theorem filed_opening : (opening p me sync w).Filed p w.hub.synchronizers.length := by
  have htaken : (opening p me sync w).taken = [] := taken_opening hw hnone
  refine ⟨?_, ?_, ?_, ?_⟩
  · exact Nat.lt_of_lt_of_eq (Nat.lt_succ_self _) length_opening.symm
  · rw [synchronizer_opening, hnew.uri]
  · rw [synchronizer_opening, hnew.version, htaken]
    rfl
  · rw [synchronizer_opening, htaken]
    change sync.Collects w.hooks []
    rw [(hw.absent hnone).2.2]
    exact hnew.collects

theorem inv_opening : (opening p me sync w).Inv p := by
  have hattached : p.attached (opening p me sync w).hub = some w.hub.synchronizers.length :=
    attached_opening hw hnew
  constructor
  case works => exact (works_filed hw.works).setLock _ _
  case valid =>
    intro n
    rw [lock_opening]
    split
    · exact (hw.valid n).enter
    · exact hw.valid n
  case unused =>
    intro k hk
    rw [length_opening] at hk
    rw [lock_opening, if_neg]
    · exact hw.unused k (Nat.le_of_succ_le hk)
    · intro heq
      cases heq
      exact absurd hk (Nat.not_succ_le_self _)
  case absent =>
    intro hnone'
    rw [hattached] at hnone'
    cases hnone'
  case filed =>
    intro k hk
    obtain rfl := Option.some.inj (hattached.symm.trans hk)
    exact filed_opening hw hnone hnew
  case follows => exact .inl ⟨(hw.absent hnone).1, taken_opening hw hnone⟩
  case tidy =>
    intro n hfree
    cases n with
    | send k =>
      intro hk
      obtain rfl := Option.some.inj (hattached.symm.trans hk)
      rw [lock_opening, if_pos rfl, Lock.enter_isFree] at hfree
      cases hfree
    | _ => trivial

/-- Whoever connects the document has the word first. -/
theorem inTurn_opening (hclear : w.Clear me) :
    InTurn p me w.hub.synchronizers.length (w.hub.lock (.send w.hub.synchronizers.length)).next
      (fun heard taken => heard = [] ∧ taken = []) (opening p me sync w) where
  holds := by
    refine ⟨?_, ?_, owner_enter⟩
    · rw [lock_opening, if_pos rfl, Lock.enter_holder, if_pos (hw.unused _ (Nat.le_refl _))]
    · rw [lock_opening, if_pos rfl, Lock.enter_next]
      exact Nat.lt_succ_self _
  attached := attached_opening hw hnew
  only := ownsOnly_enter (w := w.move p me (filed p sync w.hub)) hw.valid
    (ownsOnly_move (fun _ => rfl) hclear)
  fact := ⟨(hw.absent hnone).1, taken_opening hw hnone⟩

end Opening

/-! ## Telling of the opening -/

/-- The first that the server hears of the document is its opening. -/
theorem reaches_sendOpen :
    Reaches p me (InTurn p me k t fun heard taken => heard = [] ∧ taken = [])
      (sendOpen p.session k) fun _ => InTurn p me k t (Even p) := by
  refine reaches_get lasting_inTurn.enduring fun h m hm hPm => ?_
  have huri : (h.synchronizer k).uri = p.uri := hPm.2 ▸ (hm.inv.filed k hPm.1.attached).uri
  have htell : Reaches p me (InTurn p me k t fun heard taken => heard = [] ∧ taken = [])
      (tell p.session (h.synchronizer k).openNotice) fun _ => InTurn p me k t (Even p) := by
    refine reaches_tell huri ?_
    rintro heard taken ⟨rfl, rfl⟩
    rw [Synchronizer.openNotice, huri]
    exact tells_opened ..
  refine (htell.bind fun told => ?_) m hm hPm.1
  cases told with
  | false => exact .pure _ fun _ h => h
  | true => exact reaches_quiet lasting_inTurn.enduring fun h => ⟨rfl, rfl⟩

theorem reaches_openDocument (hnew : IsNew p sync) :
    Reaches p me (fun w => w.Clear me ∧ p.attached w.hub = none) (openDocument p.session sync)
      fun _ w => w.Clear me := by
  rintro m hm ⟨hclear, hnone⟩ - -
  let k := (World.hub m.now).synchronizers.length
  let t := ((World.hub m.now).lock (.send k)).next
  let opened : Moment (pact p me) := ⟨m.start, opening p me sync m.now, m.jobs⟩
  have hticket : (Hub.enterLock (.send k) (filed p sync m.state)).1 = t := Lock.enter_ticket _
  have hsound : opened.Sound := ⟨inv_opening hm.inv hnone hnew,
    hm.guarantee.trans (guarantee_opening hm.inv hnone hnew), hm.jobs⟩
  have hturn := inTurn_opening hm.inv hnone hnew hclear
  change Keeps _ (Routine.bind (Routine.ensuring (Hub.leaveLock (.send k)
    (Hub.enterLock (.send k) (filed p sync m.state)).1) (sendOpen p.session k)) fun _ => pure k)
    opened _
  rw [hticket]
  refine keeps_bind.mpr (keeps_ensuring
    ((reaches_sendOpen opened hsound hturn).mono fun m' _ hgoal _ => ?_))
  obtain ⟨hsound', hturn'⟩ := hgoal
  exact ⟨sound_leave hsound' hturn'.holds fun _ => hturn'.fact,
    hturn'.clear_leave hsound'.inv⟩

/-! ## Connecting -/

theorem quiet_touched (h : Hub) : p.Quiet h (h.onSession p.session (·.touched)) := by
  refine ⟨?_, rfl⟩
  by_cases hknown : p.session < h.sessions.length
  · exact Hub.outline_onSession (by simpa [Hub.outline] using hknown)
  · rw [Hub.onSession, List.modify_eq_self (Nat.le_of_not_lt hknown)]

theorem reaches_start : Reaches p me (fun w => w.Clear me) (start p.session)
    fun r w => r = .ok () ∧ w.Clear me := by
  refine .withLock (fun hsend => hsend) lasting_ownsOnly
    (fun r w w' hw' hbinds h => ⟨h.1, lasting_ownsOnly w w' hw' hbinds h.2⟩) fun t => ?_
  refine reaches_get (enduring_holds.and lasting_ownsOnly.enduring) fun h m hm hPm => ?_
  have hstarted : (h.session p.session).state = .started := hPm.2 ▸ hm.inv.works.started
  dsimp only
  rw [hstarted]
  exact ⟨hm, hPm.1.1, rfl, hPm.1.2⟩

theorem reaches_connect {document : DocumentRef} (huri : document.uri = p.uri) (text : String) :
    Reaches p me (fun w => w.Clear me) (connect p.session document text)
      fun _ w => w.Clear me := by
  refine .bind reaches_start fun r => ?_
  cases r with
  | error e => exact fun _ _ hPm => nomatch hPm.1
  | ok =>
    have htouched : Reaches p me (fun w => w.Clear me)
        (modify (Hub.onSession p.session (·.touched)) : Program Unit) fun _ w => w.Clear me :=
      reaches_quiet lasting_ownsOnly.enduring quiet_touched
    refine .bind (htouched.weaken (fun _ h => h.2) fun _ _ h => h) fun _ => ?_
    refine reaches_get lasting_ownsOnly.enduring fun h => ?_
    dsimp only
    split
    · exact .pure _ fun _ hw => hw.1
    · exact .pure _ fun _ hw => hw.1
    · rename_i hnone
      refine .bind ((reaches_openDocument (isNew_start huri ..)).weaken
        (fun w hw => ⟨hw.1, ?_⟩) fun _ _ hw => hw) fun k => .pure _ fun _ hw => hw
      rw [hw.2, Site.attached, ← huri]
      exact hnone

end LanguageHub.Parley
