import LanguageHub.Document.Synchronizer
import LanguageHub.Proofs.Text.Edits

/-!
# A server's copy of a document

The server starts from the opened text and makes the changes it is told, in their order. It
is strict: it has no copy any more once a change names a place that its copy does not have.
-/

namespace LanguageHub

open Text

namespace Buffer

/-- The text after a change. The ends of its range must lie in the text, in their order,
with as many UTF-16 units between them as the change says. -/
def receive (b : Buffer) (c : TextChange) : Option Buffer :=
  match c.range with
  | none => some ⟨c.text⟩
  | some range => do
    let start ← b.offsetAt range.start
    let stop ← b.offsetAt range.stop
    let removed ← b.removed? ⟨start, stop - start, c.text⟩
    if start ≤ stop ∧ c.rangeLength = some (unitCount removed) then
      (b.apply ⟨start, stop - start, c.text⟩).toOption
    else none

def receiveAll (b : Buffer) (changes : List TextChange) : Option Buffer :=
  changes.foldlM receive b

@[simp] theorem receive_whole (b : Buffer) (text : String) :
    b.receive (.whole text) = some ⟨text⟩ := rfl

@[simp] theorem receiveAll_nil (b : Buffer) : b.receiveAll [] = some b := rfl

theorem receiveAll_append (b : Buffer) (first second : List TextChange) :
    b.receiveAll (first ++ second) = (b.receiveAll first).bind (·.receiveAll second) :=
  List.foldlM_append ..

@[simp] theorem receiveAll_singleton (b : Buffer) (c : TextChange) :
    b.receiveAll [c] = b.receive c := by
  simp [receiveAll]

/-- The change of an edit, said with the ends of the edit's run in the text before it. -/
theorem Removes.receive {b : Buffer} {e : Edit} {before removed after : List Char}
    (h : b.Removes e before removed after) :
    b.receive ⟨some ⟨endPosition before, endPosition (before ++ removed)⟩,
      some (unitCount removed), e.newText⟩ = some (b.after e) := by
  obtain ⟨htext, hbefore, hremoved⟩ := h
  have hstart : b.offsetAt (endPosition before) = some e.offset := by
    rw [offsetAt_eq_some (c := removed ++ after) (by rw [htext, List.append_assoc]), hbefore]
  have hstop : b.offsetAt (endPosition (before ++ removed)) = some (e.offset + e.oldLength) := by
    rw [offsetAt_eq_some htext, byteCount_append, hbefore, hremoved]
  have hedit : (⟨e.offset, e.offset + e.oldLength - e.offset, e.newText⟩ : Edit) = e := by
    rw [Nat.add_sub_cancel_left]
  have hall : b.Removes e before removed after := ⟨htext, hbefore, hremoved⟩
  simp only [Buffer.receive, hstart, hstop, Option.bind_eq_bind, Option.bind_some, hedit,
    hall.removed?, hall.apply, hall.after, Nat.le_add_right, true_and, if_true]
  rfl

end Buffer

/-- A server's copy of a document, if it has one, after a notice about the document. -/
def DocumentNotice.copied (copy : Option Buffer) : DocumentNotice → Option Buffer
  | opened _ _ _ text => some ⟨text⟩
  | changed _ _ changes => copy.bind (·.receiveAll changes)
  | saved .. => copy
  | closed _ => none

/-! ## The change of an edit -/

namespace Edit

/-- The lines, the columns and the length of what the edit takes out are words of 32 bits. -/
def IsShortIn (e : Edit) (b : Buffer) : Prop :=
  ∀ before removed after, b.Removes e before removed after →
    Fits (endPosition before) ∧ Fits (endPosition (before ++ removed)) ∧
      unitCount removed < UInt32.size

/-- In a text of fewer than 2³² UTF-16 units every edit is short. -/
theorem isShortIn_of_unitCount_lt {b : Buffer} (h : unitCount b.text.toList < UInt32.size)
    (e : Edit) : e.IsShortIn b := by
  rintro before removed after ⟨htext, -, -⟩
  rw [htext, unitCount_append, unitCount_append] at h
  refine ⟨fits_endPosition (by omega), fits_endPosition ?_, by omega⟩
  rw [unitCount_append]
  omega

end Edit

namespace Synchronizer

/-- A change with a range is only sent for an edit that can be made, and makes it. -/
theorem receive_of_rangedChange? {b : Buffer} {e : Edit} {c : TextChange}
    (h : rangedChange? b e = some c) : b.receive c = some (b.after e) := by
  simp only [rangedChange?, Option.bind_eq_bind, Option.bind_eq_some_iff] at h
  obtain ⟨start, hstart, stop, hstop, removed, hremoved, h⟩ := h
  obtain ⟨before, after, hedit⟩ := Buffer.exists_removes_of_removed? hremoved
  obtain ⟨htext, hbefore, hlength⟩ := hedit
  obtain ⟨a, _, ha, hsize, rfl⟩ := Buffer.eq_endPosition_of_positionAt hstart
  obtain ⟨a', _, ha', hsize', rfl⟩ := Buffer.eq_endPosition_of_positionAt hstop
  -- Each offset cuts the text in one way only.
  have hcut : cut? e.offset b.text.toList = some (before, removed ++ after) :=
    cut?_eq_some_iff.mpr ⟨by rw [htext, List.append_assoc], hbefore⟩
  have hcut' : cut? (e.offset + e.oldLength) b.text.toList = some (before ++ removed, after) :=
    cut?_eq_some_iff.mpr ⟨htext, by rw [byteCount_append, hbefore, hlength]⟩
  have heq := hcut.symm.trans (cut?_eq_some_iff.mpr ⟨ha, hsize⟩)
  have heq' := hcut'.symm.trans (cut?_eq_some_iff.mpr ⟨ha', hsize'⟩)
  simp only [Option.some.injEq, Prod.mk.injEq] at heq heq'
  rw [← heq.1, ← heq'.1] at h
  split at h
  · cases h
    exact Buffer.Removes.receive ⟨htext, hbefore, hlength⟩
  · cases h

/-- A short edit without such a change cannot be made. -/
theorem after_eq_of_rangedChange?_eq_none {b : Buffer} {e : Edit} (hshort : e.IsShortIn b)
    (h : rangedChange? b e = none) : b.after e = b := by
  unfold Buffer.after
  split
  · rename_i b' hb'
    obtain ⟨before, removed, after, hedit⟩ := Buffer.exists_removes_of_apply hb'
    obtain ⟨hstart, hstop, hunits⟩ := hshort _ _ _ hedit
    obtain ⟨htext, hbefore, hlength⟩ := id hedit
    have hpos : b.positionAt e.offset = some (endPosition before) := by
      rw [← hbefore]
      exact Buffer.positionAt_eq_some (c := removed ++ after)
        (by rw [htext, List.append_assoc]) hstart
    have hpos' : b.positionAt (e.offset + e.oldLength) =
        some (endPosition (before ++ removed)) := by
      rw [← hbefore, ← hlength, ← byteCount_append]
      exact Buffer.positionAt_eq_some htext hstop
    simp [rangedChange?, hpos, hpos', hedit.removed?, hunits] at h
  · rfl

end Synchronizer

end LanguageHub

/-!
# What a synchronizer has collected

A synchronizer tracks the editor when the changes it has collected lead from the server's
copy to the editor's text. Every hook of an edit keeps this, and so does a commit, also one
that falls between the two hooks of an edit.
-/

namespace LanguageHub

/-- How far an edit has come. -/
inductive EditPhase where
  /-- No edit is under way. -/
  | idle
  /-- It was shown before it is made. -/
  | shown (edit : Edit)
  /-- It was tried, and is to be shown again. -/
  | tried
  deriving DecidableEq, Repr

/-- The text once the edit under way is made. -/
def EditPhase.settled (text : Buffer) : EditPhase → Buffer
  | shown e => text.after e
  | _ => text

namespace Synchronizer

/-- The changes that a commit would send. -/
def changes (s : Synchronizer) : List TextChange := s.pending.map (PendingChange.settle s.lastText)

/-- The text that the collected changes are to lead to. -/
def goal (s : Synchronizer) (text : Buffer) (phase : EditPhase) : Buffer :=
  if s.kind = .full then ⟨s.lastText⟩ else phase.settled text

/-- The collected changes lead from the server's copy `served` to the editor's text. -/
structure Tracks (s : Synchronizer) (served text : Buffer) (phase : EditPhase) : Prop where
  kind : s.kind = .full ∨ s.kind = .incremental
  lastText : phase ≠ .tried → s.lastText = text.text
  /-- When no change waits for the text, they lead there as they are. -/
  ready : .awaitingText ∉ s.pending → served.receiveAll s.changes = some (s.goal text phase)
  /-- Only the change of the edit under way waits for the text. -/
  awaiting : .awaitingText ∈ s.pending → s.kind = .incremental ∧ phase ≠ .idle ∧
    ∃ first middle, s.pending = first.map .ready ++ [.awaitingText] ∧
      served.receiveAll first = some middle

/-- A change that waits for the text is of an edit that cannot be made. -/
def Settled (s : Synchronizer) (text : Buffer) (phase : EditPhase) : Prop :=
  .awaitingText ∈ s.pending → s.lastText = (phase.settled text).text

variable {s : Synchronizer} {served text : Buffer} {phase : EditPhase} {e : Edit}

/-! ## What is collected -/

theorem settle_ready (lastText : String) (cs : List TextChange) :
    (cs.map PendingChange.ready).map (PendingChange.settle lastText) = cs := by
  simp [Function.comp_def, PendingChange.settle]

theorem withText_ready (t : String) (cs : List TextChange) :
    (cs.map PendingChange.ready).map (PendingChange.withText t) = cs.map PendingChange.ready := by
  simp [Function.comp_def, PendingChange.withText]

theorem exists_ready {pending : List PendingChange} (h : .awaitingText ∉ pending) :
    ∃ cs : List TextChange, pending = cs.map .ready := by
  induction pending with
  | nil => exact ⟨[], rfl⟩
  | cons p rest ih =>
    simp only [List.mem_cons, not_or] at h
    obtain ⟨cs, rfl⟩ := ih h.2
    cases p with
    | ready c => exact ⟨c :: cs, rfl⟩
    | awaitingText => exact absurd rfl h.1

theorem awaitingText_not_mem_ready (cs : List TextChange) :
    PendingChange.awaitingText ∉ cs.map PendingChange.ready := by
  simp

theorem changes_of_ready {cs : List TextChange} (h : s.pending = cs.map .ready) :
    s.changes = cs := by
  rw [changes, h, settle_ready]

theorem goal_of_full (h : s.kind = .full) : s.goal text phase = ⟨s.lastText⟩ := if_pos h

theorem goal_of_incremental (h : s.kind = .incremental) :
    s.goal text phase = phase.settled text :=
  if_neg (by simp [h, SyncKind.full, SyncKind.incremental])

theorem tracks_of_ready {l : List TextChange} (hkind : s.kind = .full ∨ s.kind = .incremental)
    (hlast : phase ≠ .tried → s.lastText = text.text) (hpending : s.pending = l.map .ready)
    (hl : served.receiveAll l = some (s.goal text phase)) : s.Tracks served text phase where
  kind := hkind
  lastText := hlast
  ready _ := by rw [changes_of_ready hpending, hl]
  awaiting hmem := by
    rw [hpending] at hmem
    exact absurd hmem (awaitingText_not_mem_ready l)

theorem Tracks.exists_ready_of_idle (h : s.Tracks served text .idle) :
    ∃ cs : List TextChange, s.pending = cs.map .ready ∧ served.receiveAll cs = some text := by
  have hnot : .awaitingText ∉ s.pending := fun hmem => (h.awaiting hmem).2.1 rfl
  obtain ⟨cs, hcs⟩ := exists_ready hnot
  have hready := h.ready hnot
  rw [changes_of_ready hcs] at hready
  refine ⟨cs, hcs, hready.trans ?_⟩
  rcases h.kind with hfull | hincremental
  · rw [goal_of_full hfull, h.lastText (by simp)]
  · rw [goal_of_incremental hincremental]
    rfl

/-- When no edit is under way no change waits for the text. -/
theorem Tracks.settled_of_idle (h : s.Tracks served text .idle) : s.Settled text .idle :=
  fun hmem => absurd rfl (h.awaiting hmem).2.1

/-! ## One step -/

theorem tracks_start {settings : SyncSettings}
    (hkind : settings.kind = .full ∨ settings.kind = .incremental) (uri languageId : String)
    (text : Buffer) : (start uri languageId settings text.text).Tracks text text .idle := by
  refine tracks_of_ready (l := []) hkind (fun _ => rfl) rfl ?_
  rw [Buffer.receiveAll_nil, goal]
  split <;> rfl

theorem Tracks.beforeChange (h : s.Tracks served text .idle) (e : Edit) :
    (s.beforeChange text e).Tracks served text (.shown e) := by
  obtain ⟨cs, hcs, hready⟩ := h.exists_ready_of_idle
  have hlast : s.lastText = text.text := h.lastText (by simp)
  rcases h.kind with hfull | hincremental
  · -- Nothing is collected before the edit.
    have hsame : s.beforeChange text e = s := by
      simp [Synchronizer.beforeChange, hfull, SyncKind.full, SyncKind.incremental]
    rw [hsame]
    exact tracks_of_ready h.kind (fun _ => hlast) hcs (by rw [hready, goal_of_full hfull, hlast])
  · cases hchange : rangedChange? text e with
    | none =>
      have hshown : s.beforeChange text e =
          { s with pending := cs.map .ready ++ [.awaitingText] } := by
        simp [Synchronizer.beforeChange, hincremental, hchange, hcs]
      rw [hshown]
      exact ⟨h.kind, fun _ => hlast, fun hmem => absurd (by simp) hmem,
        fun _ => ⟨hincremental, by simp, cs, text, rfl, hready⟩⟩
    | some c =>
      have hshown : s.beforeChange text e = { s with pending := (cs ++ [c]).map .ready } := by
        simp [Synchronizer.beforeChange, hincremental, hchange, hcs]
      rw [hshown]
      refine tracks_of_ready h.kind (fun _ => hlast) rfl ?_
      rw [Buffer.receiveAll_append, hready, Option.bind_some, Buffer.receiveAll_singleton,
        receive_of_rangedChange? hchange, goal_of_incremental]
      · rfl
      · exact hincremental

/-- A change waits for the text only if its edit cannot be made. -/
theorem settled_beforeChange (h : s.Tracks served text .idle) (hshort : e.IsShortIn text) :
    (s.beforeChange text e).Settled text (.shown e) := by
  obtain ⟨cs, hcs, -⟩ := h.exists_ready_of_idle
  have hlast : s.lastText = text.text := h.lastText (by simp)
  intro hmem
  unfold Synchronizer.beforeChange at hmem ⊢
  split at hmem
  · rename_i hkind
    cases hchange : rangedChange? text e with
    | none =>
      simp only [hkind, if_true, EditPhase.settled, hlast,
        after_eq_of_rangedChange?_eq_none hshort hchange]
    | some c => simp [hchange, hcs] at hmem
  · simp [hcs] at hmem

/-- The edit is made, or refused. -/
theorem Tracks.tried (h : s.Tracks served text (.shown e)) :
    s.Tracks served (text.after e) .tried where
  kind := h.kind
  lastText hphase := absurd rfl hphase
  ready := h.ready
  awaiting hmem := ⟨(h.awaiting hmem).1, by simp, (h.awaiting hmem).2.2⟩

theorem Settled.tried (h : s.Settled text (.shown e)) : s.Settled (text.after e) .tried := h

theorem Tracks.afterChange (h : s.Tracks served text .tried) :
    (s.afterChange text).Tracks served text .idle := by
  rcases h.kind with hfull | hincremental
  · have hshown : s.afterChange text =
        { s with pending := [TextChange.whole text.text].map .ready, lastText := text.text } := by
      simp [Synchronizer.afterChange, hfull]
    rw [hshown]
    refine tracks_of_ready h.kind (fun _ => rfl) rfl ?_
    rw [Buffer.receiveAll_singleton, Buffer.receive_whole, goal_of_full]
    exact hfull
  · have hshown : s.afterChange text =
        { s with pending := s.pending.map (PendingChange.withText text.text),
                 lastText := text.text } := by
      simp [Synchronizer.afterChange, hincremental, SyncKind.full, SyncKind.incremental]
    rw [hshown]
    by_cases hmem : .awaitingText ∈ s.pending
    · -- The whole text after the edit makes up for the missing range.
      obtain ⟨-, -, first, middle, hpending, hfirst⟩ := h.awaiting hmem
      refine tracks_of_ready (l := first ++ [.whole text.text]) h.kind (fun _ => rfl) ?_ ?_
      · simp only [hpending, List.map_append, withText_ready]
        rfl
      · rw [Buffer.receiveAll_append, hfirst, Option.bind_some, Buffer.receiveAll_singleton,
          Buffer.receive_whole, goal_of_incremental]
        · rfl
        · exact hincremental
    · obtain ⟨cs, hcs⟩ := exists_ready hmem
      have hready := h.ready hmem
      rw [changes_of_ready hcs, goal_of_incremental hincremental] at hready
      refine tracks_of_ready (l := cs) h.kind (fun _ => rfl) (by rw [hcs, withText_ready]) ?_
      rw [hready, goal_of_incremental]
      · rfl
      · exact hincremental

/-! ## Commits -/

/-- The server's copy after a commit. -/
def committed (s : Synchronizer) (copy : Option Buffer) : Option Buffer :=
  match s.takeCommit.1 with
  | some notice => notice.copied copy
  | none => copy

theorem committed_eq (s : Synchronizer) (copy : Option Buffer) :
    s.committed copy = copy.bind (·.receiveAll s.changes) := by
  unfold Synchronizer.committed takeCommit
  by_cases hempty : s.pending.isEmpty
  · have hnil : s.pending = [] := List.isEmpty_iff.mp hempty
    cases copy <;> simp [hnil, changes]
  · simp only [hempty]
    rfl

theorem pending_takeCommit (s : Synchronizer) : s.takeCommit.2.pending = [] := by
  unfold takeCommit
  split
  · exact List.isEmpty_iff.mp (by assumption)
  · rfl

theorem takeCommit_eq (s : Synchronizer) :
    s.takeCommit.2 = { s with version := s.takeCommit.2.version, pending := [] } := by
  unfold takeCommit
  split
  · have hnil : s.pending = [] := List.isEmpty_iff.mp (by assumption)
    rw [← hnil]
  · rfl

/-- A commit brings the server's copy to where the collected changes lead. -/
theorem Tracks.takeCommit (h : s.Tracks served text phase) (hsettled : s.Settled text phase) :
    ∃ copy, s.committed (some served) = some copy ∧ s.takeCommit.2.Tracks copy text phase ∧
      (phase = .idle → copy = text) := by
  have hgoal : served.receiveAll s.changes = some (s.goal text phase) := by
    by_cases hmem : .awaitingText ∈ s.pending
    · obtain ⟨hincremental, -, first, middle, hpending, hfirst⟩ := h.awaiting hmem
      rw [changes, hpending, List.map_append, settle_ready, Buffer.receiveAll_append, hfirst,
        goal_of_incremental hincremental]
      simp [PendingChange.settle, hsettled hmem]
    · exact h.ready hmem
  refine ⟨s.goal text phase, (committed_eq s _).trans hgoal, ?_, ?_⟩
  · rw [takeCommit_eq]
    refine tracks_of_ready (l := []) h.kind h.lastText rfl ?_
    rfl
  · rintro rfl
    obtain ⟨cs, hcs, hready⟩ := h.exists_ready_of_idle
    rw [changes_of_ready hcs, hready] at hgoal
    exact (Option.some.inj hgoal).symm

theorem settled_takeCommit (s : Synchronizer) (text : Buffer) (phase : EditPhase) :
    s.takeCommit.2.Settled text phase := by
  intro hmem
  simp [pending_takeCommit] at hmem

end Synchronizer

end LanguageHub
