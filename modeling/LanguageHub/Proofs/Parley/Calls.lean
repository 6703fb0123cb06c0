import LanguageHub.Hub.Jobs
import LanguageHub.Proofs.Parley.Opening

/-!
# Calls at a site

A commit takes what is collected and a save what is to be said, and each tells the server while
it has the word. All calls about the document leave the site in good order.
-/

namespace LanguageHub

namespace Parley

open Routine Pact Session
open DocumentNotice (Tells)

variable {p : Site} {me k t : Nat} {w : World} {α : Type}

/-! ## Commits -/

/-- The hub with the changes of a synchronizer taken. -/
abbrev taken (k : Nat) (h : Hub) : Hub :=
  h.onSynchronizer k fun _ => (h.synchronizer k).takeCommit.2

/-- What a commit takes. -/
def takings (s : Synchronizer) : List (List TextChange) :=
  if s.pending = [] then [] else [s.changes]

theorem synchronizer_taken (hk : k < w.hub.synchronizers.length) :
    (taken k w.hub).synchronizer k = (w.hub.synchronizer k).takeCommit.2 :=
  (Hub.getD_modify ..).trans (if_pos ⟨rfl, hk⟩)

theorem version_taken (s : Synchronizer) :
    s.takeCommit.2.version = s.version + (takings s).length := by
  unfold Synchronizer.takeCommit takings
  cases s.pending <;> simp

theorem taken_taken (hw : w.Inv p) (hattached : p.attached w.hub = some k) :
    (w.move p me (taken k w.hub)).taken = w.taken ++ takings (w.hub.synchronizer k) := by
  refine congrArg (w.taken ++ ·) ?_
  simp only [drained, hattached, synchronizer_taken (hw.filed k hattached).known, version_taken]
  unfold takings
  split <;> simp

theorem collects_taken {s : Synchronizer} {hooks : List Hook} {queues : List (List TextChange)}
    (h : s.Collects hooks queues) : s.takeCommit.2.Collects hooks (queues ++ takings s) := by
  by_cases hnone : s.pending = []
  · have hsame : s.takeCommit.2 = s := by simp [Synchronizer.takeCommit, hnone]
    rw [hsame, takings, if_pos hnone, List.append_nil]
    exact h
  · rw [takings, if_neg hnone]
    exact h.takeCommit hnone

theorem filed_taken (hw : w.Inv p) (hattached : p.attached w.hub = some k) :
    (w.move p me (taken k w.hub)).Filed p k := by
  have hfiled := hw.filed k hattached
  have hsync : (w.move p me (taken k w.hub)).hub.synchronizer k =
      (w.hub.synchronizer k).takeCommit.2 := synchronizer_taken hfiled.known
  refine ⟨?_, ?_, ?_, ?_⟩
  · exact Nat.lt_of_lt_of_eq hfiled.known (List.length_modify ..).symm
  · rw [hsync, Synchronizer.takeCommit_eq]
    exact hfiled.uri
  · rw [hsync, version_taken, hfiled.version, taken_taken hw hattached, List.length_append]
    omega
  · rw [hsync, taken_taken hw hattached]
    exact collects_taken hfiled.collects

theorem acts_taken (hw : w.Inv p) (hturn : InTurn p me k t (Even p) w) :
    Acts p me w (taken k w.hub) where
  works := ⟨hw.works.known, hw.works.started, hw.works.speaker, hw.works.isOpen, hw.works.link,
    hw.works.linked, hw.works.fault⟩
  attached := rfl
  length := List.length_modify ..
  lock _ := rfl
  frames := .inl rfl
  talk := by
    refine .inr ⟨⟨k, t, hturn.attached, hturn.holds⟩, .inr ⟨w.taken, _,
      taken_taken hw hturn.attached, ?_, hturn.fact⟩⟩
    unfold takings
    split <;> simp
  filed k' hk' := by
    obtain rfl := Option.some.inj (hturn.attached.symm.trans hk')
    exact filed_taken hw hturn.attached

/-- The server is still to hear of this, and then has heard of all that was taken. -/
def Awaits (p : Site) (n : DocumentNotice) (heard : List Message)
    (taken : List (List TextChange)) : Prop :=
  Tells p.uri taken (heard ++ [n.message])

/-- A commit takes all that was collected, with the version that comes next. -/
theorem reaches_take :
    Reaches p me (InTurn p me k t (Even p)) (modifyGet fun h =>
        ((h.synchronizer k).takeCommit.1, h.onSynchronizer k fun _ =>
          (h.synchronizer k).takeCommit.2))
      fun r w => match r with
        | none => InTurn p me k t (Even p) w
        | some n => n.uri = p.uri ∧ InTurn p me k t (Awaits p n) w := by
  refine reaches_modifyGet fun w hw hturn => ⟨acts_taken hw hturn, ?_⟩
  have hfiled := hw.filed k hturn.attached
  have htaken : (w.move p me (taken k w.hub)).taken = w.taken ++ takings (w.hub.synchronizer k) :=
    taken_taken hw hturn.attached
  by_cases hnone : (w.hub.synchronizer k).pending = []
  · have hresult : (w.hub.synchronizer k).takeCommit.1 = none := by
      simp [Synchronizer.takeCommit, hnone]
    rw [takings, if_pos hnone, List.append_nil] at htaken
    dsimp only
    rw [hresult]
    refine hturn.move (fun _ => rfl) rfl ?_
    rw [htaken]
    exact hturn.fact
  · have hresult : (w.hub.synchronizer k).takeCommit.1 = some (.changed p.uri
        (w.taken.length + 2) (w.hub.synchronizer k).changes) := by
      simp [Synchronizer.takeCommit, hnone, hfiled.uri, hfiled.version, Synchronizer.changes]
    rw [takings, if_neg hnone] at htaken
    dsimp only
    rw [hresult]
    refine ⟨rfl, hturn.move (fun _ => rfl) rfl ?_⟩
    rw [htaken]
    exact hturn.fact.changed _

/-- Who does something about the document while it is connected has the word for it. -/
theorem reaches_whileConnected {q : Nat → Program α} {none : α}
    (hq : ∀ k t, Reaches p me (InTurn p me k t (Even p)) (q k) fun _ => InTurn p me k t (Even p)) :
    Reaches p me (fun w => w.Clear me)
      (get >>= fun h => match (h.session p.session).synchronizer? p.uri with
        | .none => pure none
        | some k => Program.withLock (.send k) (q k)) fun _ w => w.Clear me := by
  refine reaches_get lasting_ownsOnly.enduring fun h => ?_
  cases hattached : (h.session p.session).synchronizer? p.uri with
  | none => exact .pure _ fun _ hw => hw.1
  | some k =>
    refine (reaches_withWord (hq k)).weaken (fun w hw => ⟨hw.1, ?_⟩) fun _ _ hw => hw
    rw [hw.2]
    exact hattached

theorem reaches_commit :
    Reaches p me (fun w => w.Clear me) (commit p.session p.uri) fun _ w => w.Clear me := by
  refine reaches_whileConnected fun k t => .bind reaches_take fun r => ?_
  cases r with
  | none => exact .pure _ fun _ hw => hw
  | some n =>
    rintro m hm ⟨huri, hturn⟩
    refine reaches_get lasting_inTurn.enduring (fun h => ?_) m hm hturn
    refine .bind ((reaches_tell huri fun _ _ htells => htells).weaken (fun _ hw => hw.1)
      fun _ _ hw => hw) fun _ => .pure _ fun _ hw => hw

/-! ## Saves -/

theorem reaches_save (text : String) :
    Reaches p me (fun w => w.Clear me) (save p.session p.uri text) fun _ w => w.Clear me := by
  refine reaches_whileConnected fun k t => reaches_get lasting_inTurn.enduring fun h => ?_
  cases hnotice : (h.synchronizer k).saveNotice ⟨text⟩ with
  | none => exact .pure _ fun _ hw => hw.1
  | some n =>
    obtain ⟨withText, -, rfl⟩ := Option.map_eq_some_iff.mp hnotice
    rintro m hm ⟨hturn, hsame⟩
    have huri : (h.synchronizer k).uri = p.uri := hsame ▸ (hm.inv.filed k hturn.attached).uri
    have htell : Reaches p me (InTurn p me k t (Even p)) (tell p.session (.saved
        (h.synchronizer k).uri (if withText then some text else none)))
        fun _ => InTurn p me k t (Even p) := by
      refine reaches_tell huri fun _ _ htells => ?_
      rw [huri]
      exact Tells.saved htells _
    exact (htell.bind fun _ => .pure () fun _ hw => hw) m hm hturn

/-! ## Other messages -/

theorem reaches_pushSettings :
    Reaches p me (fun w => w.Clear me) (pushSettings p.session) fun _ w => w.Clear me := by
  refine reaches_get lasting_ownsOnly.enduring fun h m hm hPm => ?_
  have hclient : (h.session p.session).client? = .ok p.client := hPm.2 ▸ hm.inv.works.client?
  dsimp only
  split
  · exact ⟨hm, hPm.1⟩
  · rw [hclient]
    exact Reaches.holding lasting_ownsOnly.enduring (fun _ => lasting_ownsOnly.enduring)
      (reaches_notify_other lasting_ownsOnly rfl) p.client m hm hPm.1

end Parley

/-- The call is about the document of the site, or its session says something else there. -/
def Call.IsAbout (p : Site) : Call → Prop
  | startSession s | pushSettings s => s = p.session
  | connect s document _ => s = p.session ∧ document.uri = p.uri
  | commit s uri | save s uri _ => s = p.session ∧ uri = p.uri
  | notify c method params =>
    c = p.client ∧ (Message.ofNotification method params).isAbout p.uri = false
  | _ => False

namespace Parley

open Routine Pact Session

variable {p : Site} {me : Nat} {c : Call}

theorem reaches_call (hc : c.IsAbout p) :
    Reaches p me (fun w => w.Clear me) c.program fun _ w => w.Clear me := by
  have hthen : ∀ {α : Type} {q : Program α} {f : α → Outcome},
      (Reaches p me (fun w => w.Clear me) q fun _ w => w.Clear me) →
      Reaches p me (fun w => w.Clear me) (q >>= fun b => pure (f b)) fun _ w => w.Clear me :=
    fun hq => .bind hq fun _ => .pure _ fun _ hw => hw
  cases c with
  | startSession s =>
    obtain rfl : s = p.session := hc
    exact hthen (reaches_start.weaken (fun _ hw => hw) fun _ _ hw => hw.2)
  | pushSettings s =>
    obtain rfl : s = p.session := hc
    exact hthen reaches_pushSettings
  | connect s document text =>
    obtain ⟨rfl, huri⟩ := hc
    exact hthen (reaches_connect huri text)
  | commit s uri =>
    obtain ⟨rfl, rfl⟩ := hc
    exact hthen reaches_commit
  | save s uri text =>
    obtain ⟨rfl, rfl⟩ := hc
    exact hthen (reaches_save text)
  | notify d method params =>
    obtain ⟨rfl, hother⟩ := hc
    exact hthen (Reaches.holding lasting_ownsOnly.enduring (fun _ => lasting_ownsOnly.enduring)
      (reaches_notify_other lasting_ownsOnly hother) p.client)
  | _ => exact hc.elim

/-- A call in the background ends with its outcome, and with none of its tickets in use. -/
theorem reaches_background (slot : Nat) (hc : c.IsAbout p) :
    Reaches p me (fun w => w.Clear me) (Job.call slot c).program
      fun r w => r = none ∧ w.Clear me :=
  .bind (reaches_call hc) fun _ =>
    .bind (reaches_quiet lasting_ownsOnly.enduring fun _ => ⟨rfl, rfl⟩) fun _ =>
      .pure _ fun _ hw => ⟨rfl, hw⟩

end Parley

end LanguageHub
