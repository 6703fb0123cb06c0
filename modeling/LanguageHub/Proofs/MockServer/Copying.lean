import LanguageHub.MockServer.Basic
import LanguageHub.Proofs.Document.Mirror
import LanguageHub.Proofs.Text.Positions
import LanguageHub.Proofs.Wire.Conversation
import LanguageHub.Proofs.Wire.Messages

/-!
# The mock server's copy of a document

Each commit tells a server what was collected, when that is anything, and so a run of edits and
commits comes to a list of notices. The mock server finds places by lines and columns of its own,
and counts a column for each character. As long as every character is one UTF-16 unit, these are
the places that the editor means.

Laws: the notices of a run make the server's copy, and keep to characters of one unit as the texts
and the insertions do; the mock server has the editor's text after every commit outside the hooks
of an edit; all changes on the way replace what is between two characters of its text.
-/

namespace LanguageHub

open Synchronizer (rangedChange?)

/-! ## Characters of one unit -/

namespace Text

/-- All characters are in the Basic Multilingual Plane, where each is one unit. -/
def IsBasic (cs : List Char) : Prop := ∀ c ∈ cs, c.toNat < 0x10000

instance (cs : List Char) : Decidable (IsBasic cs) := List.decidableBAll _ cs

theorem isBasic_append {a b : List Char} : IsBasic (a ++ b) ↔ IsBasic a ∧ IsBasic b :=
  List.forall_mem_append

theorem units_of_lt {c : Char} (h : c.toNat < 0x10000) : units c = 1 := if_pos h

end Text

open Text (IsBasic isBasic_append)

def Buffer.IsBasic (b : Buffer) : Prop := Text.IsBasic b.text.toList

def TextChange.IsBasic (c : TextChange) : Prop := Text.IsBasic c.text.toList

/-- What the step inserts, if anything, is of characters of one unit. -/
def DocumentStep.IsBasic : DocumentStep → Prop
  | edit e _ _ => Text.IsBasic e.newText.toList
  | commit => True

theorem Buffer.Removes.isBasic {b : Buffer} {e : Edit} {before removed after : List Char}
    (h : b.Removes e before removed after) (hb : b.IsBasic) (he : Text.IsBasic e.newText.toList) :
    (b.after e).IsBasic := by
  have hparts := hb
  rw [Buffer.IsBasic, h.1, isBasic_append, isBasic_append] at hparts
  rw [h.after, Buffer.IsBasic, String.toList_ofList, isBasic_append, isBasic_append]
  exact ⟨⟨hparts.1.1, he⟩, hparts.2⟩

theorem Buffer.IsBasic.after {b : Buffer} {e : Edit} (hb : b.IsBasic)
    (he : Text.IsBasic e.newText.toList) : (b.after e).IsBasic := by
  cases hmade : b.apply e with
  | ok b' =>
    obtain ⟨_, _, _, hremoves⟩ := Buffer.exists_removes_of_apply hmade
    exact hremoves.isBasic hb he
  | error fault => rwa [Buffer.after, hmade]

theorem text_of_rangedChange? {b : Buffer} {e : Edit} {c : TextChange}
    (h : rangedChange? b e = some c) : c.text = e.newText := by
  simp only [rangedChange?, Option.bind_eq_bind, Option.bind_eq_some_iff] at h
  obtain ⟨start, -, stop, -, removed, -, h⟩ := h
  split at h
  · cases h
    rfl
  · cases h

/-- The notice says how the document changed, in characters of one unit. -/
inductive DocumentNotice.IsBasicChange (uri : String) : DocumentNotice → Prop
  | changed {version : Nat} {changes : List TextChange} (h : ∀ c ∈ changes, c.IsBasic) :
      IsBasicChange uri (.changed uri version changes)

namespace Mirror

variable {m : Mirror} {uri : String} {e : Edit}

/-! ## The notices of a run -/

/-- What a commit tells. -/
def notice? (m : Mirror) : Option DocumentNotice := m.synchronizer.takeCommit.1

def commitNotices (m : Mirror) : Nat → List DocumentNotice
  | 0 => []
  | n + 1 => m.commitNotices n ++ (Nat.repeat commit n m).notice?.toList

def stepNotices (m : Mirror) : DocumentStep → List DocumentNotice
  | .edit e before after =>
    (m.shown e).commitNotices before ++
      ((Nat.repeat commit before (m.shown e)).tried e).commitNotices after
  | .commit => m.notice?.toList

/-- What the commits of a run tell, in their order. -/
def notices (m : Mirror) : List DocumentStep → List DocumentNotice
  | [] => []
  | next :: rest => m.stepNotices next ++ (m.step next).notices rest

theorem copy_commit (m : Mirror) :
    m.commit.copy = m.notice?.toList.foldl DocumentNotice.copied m.copy := by
  change m.synchronizer.committed m.copy = _
  rw [Synchronizer.committed, notice?]
  cases m.synchronizer.takeCommit.1 <;> rfl

theorem copy_commits (m : Mirror) (n : Nat) :
    (Nat.repeat commit n m).copy = (m.commitNotices n).foldl DocumentNotice.copied m.copy := by
  induction n with
  | zero => rfl
  | succ n ih => rw [commitNotices, List.foldl_append, ← ih, ← copy_commit, Nat.repeat]

theorem copy_step (m : Mirror) (next : DocumentStep) :
    (m.step next).copy = (m.stepNotices next).foldl DocumentNotice.copied m.copy := by
  cases next with
  | edit e before after =>
    have hbefore : (Nat.repeat commit before (m.shown e)).copy =
        ((m.shown e).commitNotices before).foldl DocumentNotice.copied m.copy :=
      copy_commits (m.shown e) before
    rw [stepNotices, List.foldl_append, ← hbefore]
    exact copy_commits ((Nat.repeat commit before (m.shown e)).tried e) after
  | commit => exact copy_commit m

/-- The notices of a run make the server's copy. -/
theorem copy_run (m : Mirror) (steps : List DocumentStep) :
    (m.run steps).copy = (m.notices steps).foldl DocumentNotice.copied m.copy := by
  induction steps generalizing m with
  | nil => rfl
  | cons next rest ih =>
    rw [notices, List.foldl_append, ← copy_step]
    exact ih (m.step next)

/-! ## Texts of characters of one unit -/

/-- The document's text and all that is collected for the server are of characters of one unit. -/
structure IsBasic (uri : String) (m : Mirror) : Prop where
  uri : m.synchronizer.uri = uri
  text : m.text.IsBasic
  lastText : Text.IsBasic m.synchronizer.lastText.toList
  pending : ∀ c, .ready c ∈ m.synchronizer.pending → c.IsBasic

theorem isBasic_start {text : String} (htext : Text.IsBasic text.toList)
    (uri languageId : String) (settings : SyncSettings) :
    (start uri languageId settings text).IsBasic uri :=
  ⟨rfl, htext, htext, nofun⟩

theorem IsBasic.commit (h : m.IsBasic uri) : m.commit.IsBasic uri := by
  have hsynchronizer : m.commit.synchronizer = _ := Synchronizer.takeCommit_eq m.synchronizer
  refine ⟨?_, h.text, ?_, ?_⟩
  · rw [hsynchronizer]
    exact h.uri
  · rw [hsynchronizer]
    exact h.lastText
  · rw [hsynchronizer]
    exact nofun

theorem IsBasic.commits (h : m.IsBasic uri) (n : Nat) :
    (Nat.repeat Mirror.commit n m).IsBasic uri := by
  induction n with
  | zero => exact h
  | succ n ih => exact ih.commit

theorem IsBasic.shown (h : m.IsBasic uri) (he : Text.IsBasic e.newText.toList) :
    (m.shown e).IsBasic uri := by
  have hshown : (m.shown e).synchronizer = m.synchronizer.beforeChange m.text e := rfl
  unfold Synchronizer.beforeChange at hshown
  split at hshown
  · refine ⟨hshown ▸ h.uri, h.text, hshown ▸ h.lastText, fun c hc => ?_⟩
    rw [hshown] at hc
    rcases List.mem_append.mp hc with hold | hnew
    · exact h.pending c hold
    · split at hnew
      · rename_i own hown
        obtain rfl := PendingChange.ready.inj (List.mem_singleton.mp hnew)
        rwa [TextChange.IsBasic, text_of_rangedChange? hown]
      · cases List.mem_singleton.mp hnew
  · exact ⟨hshown ▸ h.uri, h.text, hshown ▸ h.lastText, hshown ▸ h.pending⟩

theorem IsBasic.tried (h : m.IsBasic uri) (he : Text.IsBasic e.newText.toList) :
    (m.tried e).IsBasic uri :=
  ⟨h.uri, h.text.after he, h.lastText, h.pending⟩

theorem IsBasic.shownAgain (h : m.IsBasic uri) : m.shownAgain.IsBasic uri := by
  refine ⟨h.uri, h.text, h.text, fun c hc => ?_⟩
  change .ready c ∈ (m.synchronizer.afterChange m.text).pending at hc
  unfold Synchronizer.afterChange at hc
  dsimp only at hc
  split at hc
  · obtain rfl := PendingChange.ready.inj (List.mem_singleton.mp hc)
    exact h.text
  split at hc
  · obtain ⟨p, hp, hsettled⟩ := List.mem_map.mp hc
    cases p with
    | ready own =>
      obtain rfl := PendingChange.ready.inj hsettled
      exact h.pending own hp
    | awaitingText =>
      obtain rfl := PendingChange.ready.inj hsettled
      exact h.text
  · exact h.pending c hc

theorem IsBasic.step (h : m.IsBasic uri) {next : DocumentStep} (hnext : next.IsBasic) :
    (m.step next).IsBasic uri := by
  cases next with
  | edit e before after =>
    exact ((((h.shown hnext).commits before).tried hnext).commits after).shownAgain
  | commit => exact h.commit

/-! ## Notices of characters of one unit -/

theorem IsBasic.notice (h : m.IsBasic uri) : ∀ n ∈ m.notice?.toList, n.IsBasicChange uri := by
  intro n hn
  rw [notice?, Synchronizer.takeCommit] at hn
  split at hn
  · cases hn
  · rw [List.mem_singleton.mp hn, h.uri]
    refine .changed fun c hc => ?_
    obtain ⟨p, hp, rfl⟩ := List.mem_map.mp hc
    cases p with
    | ready own => exact h.pending own hp
    | awaitingText => exact h.lastText

theorem IsBasic.commitNotices (h : m.IsBasic uri) (count : Nat) :
    ∀ n ∈ m.commitNotices count, n.IsBasicChange uri := by
  induction count with
  | zero => exact nofun
  | succ count ih => exact List.forall_mem_append.mpr ⟨ih, (h.commits count).notice⟩

theorem IsBasic.stepNotices (h : m.IsBasic uri) {next : DocumentStep} (hnext : next.IsBasic) :
    ∀ n ∈ m.stepNotices next, n.IsBasicChange uri := by
  cases next with
  | edit e before after =>
    have hshown := h.shown hnext
    exact List.forall_mem_append.mpr ⟨hshown.commitNotices before,
      ((hshown.commits before).tried hnext).commitNotices after⟩
  | commit => exact h.notice

/-- All that the run tells are changes of the document, in characters of one unit. -/
theorem IsBasic.notices (h : m.IsBasic uri) {steps : List DocumentStep}
    (hsteps : ∀ next ∈ steps, next.IsBasic) : ∀ n ∈ m.notices steps, n.IsBasicChange uri := by
  induction steps generalizing m with
  | nil => exact nofun
  | cons next rest ih =>
    rw [List.forall_mem_cons] at hsteps
    exact List.forall_mem_append.mpr
      ⟨h.stepNotices hsteps.1, ih (h.step hsteps.1) hsteps.2⟩

end Mirror

open Text (IsBoundary byteCount)

/-! ## What a strict server does with a change -/

namespace Buffer

variable {b b' : Buffer} {c : TextChange}

/-- The whole text, or what is between two places of it, is replaced. -/
inductive Receives (b : Buffer) (c : TextChange) : Buffer → Prop
  | whole (hrange : c.range = none) : Receives b c ⟨c.text⟩
  | part {range : Range} {before removed after : List Char} (hrange : c.range = some range)
      (htext : b.text.toList = before ++ removed ++ after)
      (hstart : b.offsetAt range.start = some (byteCount before))
      (hstop : b.offsetAt range.stop = some (byteCount (before ++ removed))) :
      Receives b c ⟨String.ofList (before ++ c.text.toList ++ after)⟩

theorem receives_of_receive (h : b.receive c = some b') : b.Receives c b' := by
  unfold receive at h
  split at h
  · rename_i hrange
    exact Option.some.inj h ▸ .whole hrange
  · rename_i range hrange
    simp only [Option.bind_eq_bind, Option.bind_eq_some_iff] at h
    obtain ⟨start, hstart, stop, hstop, removed, hremoved, h⟩ := h
    split at h
    · rename_i hmade
      obtain ⟨before, after, hremoves⟩ := exists_removes_of_removed? hremoved
      obtain ⟨htext, hbefore, hlength⟩ := id hremoves
      rw [hremoves.apply] at h
      obtain rfl := Option.some.inj h
      dsimp only at hbefore hlength
      have hupTo : byteCount (before ++ removed) = stop := by
        rw [Text.byteCount_append, hbefore, hlength, Nat.add_sub_of_le hmade.1]
      exact .part hrange htext (hbefore ▸ hstart) (hupTo ▸ hstop)
    · cases h

theorem IsBasic.receives (hb : b.IsBasic) (hc : c.IsBasic) (h : b.Receives c b') : b'.IsBasic := by
  cases h with
  | whole => exact hc
  | part hrange htext hstart hstop =>
    rw [Buffer.IsBasic, htext, Text.isBasic_append, Text.isBasic_append] at hb
    rw [Buffer.IsBasic, String.toList_ofList, Text.isBasic_append, Text.isBasic_append]
    exact ⟨⟨hb.1.1, hc⟩, hb.2⟩

end Buffer

namespace MockText

variable {cs text : List Char} {p : Position} {offset : Nat} {b b' : Buffer} {c : TextChange}

/-! ## Places -/

theorem columnOffset_eq (h : IsBasic cs) (column : Nat) :
    columnOffset column cs = Text.columnOffset column cs := by
  induction cs generalizing column with
  | nil => cases column <;> rfl
  | cons c cs ih =>
    obtain ⟨hc, hcs⟩ := List.forall_mem_cons.mp h
    cases column with
    | zero => rfl
    | succ column =>
      rw [columnOffset, Text.columnOffset, Text.units_of_lt hc, Nat.add_sub_cancel, ih hcs]

/-- Where the text has the line, the place is the same as the editor's. -/
theorem offsetOf_eq (h : IsBasic cs) (hp : Text.offsetAt cs p = some offset) :
    offsetOf cs p.line p.character = offset := by
  obtain ⟨line, column⟩ := p
  induction cs generalizing line offset with
  | nil =>
    cases line with
    | zero => exact (columnOffset_eq h column).trans (Option.some.inj hp)
    | succ line => cases hp
  | cons c cs ih =>
    cases line with
    | zero => exact (columnOffset_eq h column).trans (Option.some.inj hp)
    | succ line =>
      obtain ⟨rest, hrest, rfl⟩ := Option.map_eq_some_iff.mp hp
      rw [offsetOf, ih (List.forall_mem_cons.mp h).2 _ hrest]

theorem offsetAt_of_positionAt (h : b.IsBasic) (hp : b.positionAt offset = some p) :
    b.offsetAt p = some (offsetOf b.text.toList p.line p.character) := by
  obtain ⟨before, after, htext, rfl, rfl⟩ := Buffer.eq_endPosition_of_positionAt hp
  have hoffset := Buffer.offsetAt_eq_some htext
  rw [hoffset, offsetOf_eq h hoffset]

theorem isBoundary_columnOffset (column : Nat) (cs : List Char) :
    IsBoundary cs (columnOffset column cs) := by
  induction cs generalizing column with
  | nil => cases column <;> exact Text.isBoundary_zero []
  | cons c cs ih =>
    cases column with
    | zero => exact Text.isBoundary_zero _
    | succ column =>
      rw [columnOffset]
      split
      · exact Text.isBoundary_zero _
      · exact (ih column).cons c

/-- Any line and any column of any text lead to a place between characters. -/
theorem isBoundary_offsetOf (cs : List Char) (line column : Nat) :
    IsBoundary cs (offsetOf cs line column) := by
  induction cs generalizing line with
  | nil =>
    cases line with
    | zero => exact isBoundary_columnOffset column []
    | succ line => exact Text.isBoundary_zero []
  | cons c cs ih =>
    cases line with
    | zero => exact isBoundary_columnOffset column (c :: cs)
    | succ line => exact (ih _).cons c

/-! ## Changes -/

theorem isBoundary_of_rangeEnd? {range : Json} {name : String}
    (h : rangeEnd? text range name = some offset) : IsBoundary text offset := by
  simp only [rangeEnd?, Option.bind_eq_bind, Option.bind_eq_some_iff, Option.pure_def,
    Option.some.injEq] at h
  obtain ⟨-, -, line, -, column, -, rfl⟩ := h
  exact isBoundary_offsetOf text line column

theorem cutsInside_eq_false (text : List Char) (change : Json) :
    cutsInside text change = false := by
  unfold cutsInside
  split
  · rfl
  split
  · rename_i hstart hstop
    obtain ⟨parts, hcut⟩ := (isBoundary_of_rangeEnd? hstart).exists_cut?
    obtain ⟨parts', hcut'⟩ := (isBoundary_of_rangeEnd? hstop).exists_cut?
    simp [hcut, hcut']
  · rfl

/-- No change breaks the server. -/
theorem applyChanges_eq (text : List Char) (changes : List Json) :
    applyChanges text changes = .ok (changes.foldl applyChange text) := by
  induction changes generalizing text with
  | nil => rfl
  | cons change changes ih =>
    have hlater := ih (applyChange text change)
    unfold applyChanges at hlater ⊢
    rw [List.foldlM_cons, cutsInside_eq_false]
    exact hlater

/-- The range is from one place between characters of the text to the same or a later one. -/
def IsPart (text : List Char) (range : Json) : Prop :=
  ∃ start stop, rangeEnd? text range "start" = some start ∧
    rangeEnd? text range "end" = some stop ∧ start ≤ stop ∧ IsBoundary text start ∧
    IsBoundary text stop

/-- Every change, made after those before it, is of a part of the text or of all of it. -/
def AllParts : List Char → List Json → Prop
  | _, [] => True
  | text, change :: rest =>
    (∀ range, change.get? "range" = some range → IsPart text range) ∧
      AllParts (applyChange text change) rest

theorem get?_range (c : TextChange) : c.toJson.get? "range" = c.range.map Range.toJson := by
  obtain ⟨range, length, text⟩ := c
  cases range <;> cases length <;>
    simp [TextChange.toJson, Json.mkSparse, Json.get?_mkObj, Json.lookup]

theorem get?_text (c : TextChange) : c.toJson.get? "text" = some (.str c.text) := by
  obtain ⟨range, length, text⟩ := c
  cases range <;> cases length <;>
    simp [TextChange.toJson, Json.mkSparse, Json.get?_mkObj, Json.lookup]

theorem rangeEnd?_position (text : List Char) {range : Json} {name : String} (p : Position)
    (h : range.get? name = some p.toJson) :
    rangeEnd? text range name = some (offsetOf text p.line p.character) := by
  simp [rangeEnd?, h, Position.toJson, Json.get?_mkObj, Json.lookup, Json.ofNat, Json.nat?]

theorem rangeEnd?_start (text : List Char) (r : Range) :
    rangeEnd? text r.toJson "start" = some (offsetOf text r.start.line r.start.character) :=
  rangeEnd?_position text r.start (by simp [Range.toJson, Json.get?_mkObj, Json.lookup])

theorem rangeEnd?_stop (text : List Char) (r : Range) :
    rangeEnd? text r.toJson "end" = some (offsetOf text r.stop.line r.stop.character) :=
  rangeEnd?_position text r.stop (by simp [Range.toJson, Json.get?_mkObj, Json.lookup])

theorem replace_part (before removed after newText : List Char) :
    replace (before ++ removed ++ after) (byteCount before) (byteCount (before ++ removed))
      newText = before ++ newText ++ after := by
  have hstart := Text.cut?_byteCount before (removed ++ after)
  rw [← List.append_assoc] at hstart
  have hle : byteCount before ≤ byteCount (before ++ removed) := by
    rw [Text.byteCount_append]
    exact Nat.le_add_right _ _
  simp only [replace, hstart, Text.cut?_byteCount (before ++ removed) after, if_pos hle]

/-- What a strict server does with a change the mock server does as well. -/
theorem applyChange_of_receives (hb : b.IsBasic) (h : b.Receives c b') :
    applyChange b.text.toList c.toJson = b'.text.toList ∧
      ∀ range, c.toJson.get? "range" = some range → IsPart b.text.toList range := by
  unfold applyChange
  rw [get?_range, get?_text]
  cases h with
  | whole hrange => exact ⟨by rw [hrange]; rfl, by rw [hrange]; exact nofun⟩
  | @part range before removed after hrange htext hstart hstop =>
    have hstart' := rangeEnd?_start b.text.toList range
    rw [offsetOf_eq hb hstart] at hstart'
    have hstop' := rangeEnd?_stop b.text.toList range
    rw [offsetOf_eq hb hstop] at hstop'
    rw [hrange]
    constructor
    · simp only [Option.map_some, hstart', hstop', Option.bind_some, Json.str?, Option.getD_some,
        String.toList_ofList]
      rw [htext]
      exact replace_part before removed after c.text.toList
    · rintro _ ⟨⟩
      refine ⟨_, _, hstart', hstop', ?_, ⟨before, removed ++ after, ?_, rfl⟩,
        ⟨before ++ removed, after, htext, rfl⟩⟩
      · rw [Text.byteCount_append]
        exact Nat.le_add_right _ _
      · rw [htext, List.append_assoc]

theorem applyChange_of_receiveAll {changes : List TextChange} (hb : b.IsBasic)
    (hchanges : ∀ c ∈ changes, c.IsBasic) (h : b.receiveAll changes = some b') :
    (changes.map TextChange.toJson).foldl applyChange b.text.toList = b'.text.toList ∧
      AllParts b.text.toList (changes.map TextChange.toJson) ∧ b'.IsBasic := by
  induction changes generalizing b with
  | nil =>
    obtain rfl := Option.some.inj h
    exact ⟨rfl, trivial, hb⟩
  | cons c changes ih =>
    rw [List.forall_mem_cons] at hchanges
    obtain ⟨next, hnext, hrest⟩ := Option.bind_eq_some_iff.mp h
    have hreceives := Buffer.receives_of_receive hnext
    obtain ⟨hmade, hpart⟩ := applyChange_of_receives hb hreceives
    obtain ⟨hmade', hparts, hbasic⟩ := ih (hb.receives hchanges.1 hreceives) hchanges.2 hrest
    rw [List.map_cons, List.foldl_cons, AllParts, hmade]
    exact ⟨hmade', ⟨hpart, hparts⟩, hbasic⟩

end MockText

/-! ## Notices -/

/-- A change brings no copy back. -/
theorem foldl_copied_none {uri : String} {notices : List DocumentNotice}
    (h : ∀ n ∈ notices, n.IsBasicChange uri) :
    notices.foldl DocumentNotice.copied none = none := by
  induction notices with
  | nil => rfl
  | cons n rest ih =>
    rw [List.forall_mem_cons] at h
    obtain ⟨⟨-⟩, hrest⟩ := h
    exact ih hrest

namespace MockServer

variable {s : MockServer} {uri : String} {n : DocumentNotice} {text : List Char} {b b' : Buffer}

/-- The server after it was told. -/
def told (s : MockServer) (n : DocumentNotice) : MockServer :=
  (s.handle (.mkObj n.message.members)).server

def toldAll (s : MockServer) (notices : List DocumentNotice) : MockServer := notices.foldl told s

/-- Every change, when its turn comes, is of a part of the document that the server has, or of all
of it. -/
def AllParts : MockServer → List DocumentNotice → Prop
  | _, [] => True
  | s, n :: rest =>
    (∀ text changes, s.document? n.uri = some text →
      (n.params.get? "contentChanges").bind Json.arr? = some changes →
        MockText.AllParts text changes) ∧ (s.told n).AllParts rest

theorem handle_message (s : MockServer) (n : DocumentNotice) :
    s.handle (.mkObj n.message.members) = s.handleNotification n.method n.params := by
  simp [handle, DocumentNotice.message, Message.ofNotification, Message.members, Json.get?_mkObj,
    Json.lookup, Json.str?]

theorem document?_setDocument (s : MockServer) (uri text : String) :
    (s.setDocument uri text).document? uri = some text.toList := by
  simp [setDocument, document?]

theorem told_opened (s : MockServer) (uri languageId : String) (version : Nat) (text : String) :
    s.told (.opened uri languageId version text) = s.setDocument uri text := by
  simp [told, handle_message, handleNotification, DocumentNotice.method, DocumentNotice.params,
    documentUri, textAt, publish, Json.get?_mkObj, Json.lookup, Json.str?]

theorem contentChanges_changed (uri : String) (version : Nat) (changes : List TextChange) :
    ((DocumentNotice.changed uri version changes).params.get? "contentChanges").bind Json.arr? =
      some (changes.map TextChange.toJson) := by
  simp [DocumentNotice.params, Json.get?_mkObj, Json.lookup, Json.arr?]

theorem told_changed {version : Nat} {changes : List TextChange}
    (hdocument : s.document? uri = some text) :
    s.told (.changed uri version changes) = s.setDocument uri
      (String.ofList ((changes.map TextChange.toJson).foldl MockText.applyChange text)) := by
  have huri : documentUri (DocumentNotice.changed uri version changes).params = uri := by
    simp [documentUri, textAt, DocumentNotice.params, Json.get?_mkObj, Json.lookup, Json.str?]
  rw [told, handle_message, DocumentNotice.method]
  simp only [handleNotification, huri, hdocument, contentChanges_changed, Option.getD_some,
    MockText.applyChanges_eq, publish]

/-- What a strict server does with the changes of a document the mock server does as well. -/
theorem document?_toldAll {notices : List DocumentNotice} (hb : b.IsBasic)
    (hdocument : s.document? uri = some b.text.toList)
    (hnotices : ∀ n ∈ notices, n.IsBasicChange uri)
    (hcopied : notices.foldl DocumentNotice.copied (some b) = some b') :
    (s.toldAll notices).document? uri = some b'.text.toList ∧ s.AllParts notices := by
  induction notices generalizing s b with
  | nil =>
    obtain rfl := Option.some.inj hcopied
    exact ⟨hdocument, trivial⟩
  | cons n rest ih =>
    rw [List.forall_mem_cons] at hnotices
    obtain ⟨@⟨version, changes, hchanges⟩, hrest⟩ := hnotices
    rw [List.foldl_cons, DocumentNotice.copied, Option.bind_some] at hcopied
    cases hnext : b.receiveAll changes with
    | none =>
      rw [hnext, foldl_copied_none hrest] at hcopied
      cases hcopied
    | some next =>
      rw [hnext] at hcopied
      obtain ⟨hmade, hparts, hbasic⟩ := MockText.applyChange_of_receiveAll hb hchanges hnext
      have htold :
          (s.told (.changed uri version changes)).document? uri = some next.text.toList := by
        rw [told_changed hdocument, document?_setDocument, hmade, String.toList_ofList]
      obtain ⟨hlast, hall⟩ := ih hbasic htold hrest hcopied
      refine ⟨hlast, fun text changes' htext hchanges' => ?_, hall⟩
      rw [contentChanges_changed] at hchanges'
      obtain rfl := Option.some.inj hchanges'
      obtain rfl := Option.some.inj (hdocument.symm.trans htext)
      exact hparts

/-- A document of characters of one unit is opened, edited and committed, with whole texts or with
ranges, and the mock server is told of all this. After every commit outside the hooks of an edit it
has the editor's text, and what it replaced on the way was always between two characters, from a
place to the same or a later one. In such texts it finds every place by its position. (Only a commit
between the hooks of an edit asks for a short one.) -/
theorem document_of_run (s : MockServer) {settings : SyncSettings}
    (hkind : settings.kind = .full ∨ settings.kind = .incremental) (uri languageId : String)
    {text : String} (htext : IsBasic text.toList) {steps : List DocumentStep}
    (hsteps : ∀ next ∈ steps, next.IsBasic)
    (hshort : (Mirror.start uri languageId settings text).IsShort steps) :
    let m := Mirror.start uri languageId settings text
    let notices := m.synchronizer.openNotice :: m.notices (steps ++ [.commit])
    (s.toldAll notices).document? uri = some (m.run (steps ++ [.commit])).text.text.toList ∧
      s.AllParts notices ∧
      ∀ b : Buffer, b.IsBasic → ∀ offset p, b.positionAt offset = some p →
        b.offsetAt p = some (MockText.offsetOf b.text.toList p.line p.character) := by
  intro m notices
  have hagrees := (Mirror.agrees_start hkind uri languageId text).run hshort
  have hcopy : (m.run (steps ++ [.commit])).copy = some (m.run (steps ++ [.commit])).text := by
    rw [Mirror.run, List.foldl_append]
    exact (hagrees.commit hagrees.settled_of_idle).2 rfl
  rw [Mirror.copy_run] at hcopy
  have hchanges : ∀ n ∈ m.notices (steps ++ [.commit]), n.IsBasicChange uri :=
    (Mirror.isBasic_start htext uri languageId settings).notices
      (List.forall_mem_append.mpr ⟨hsteps, List.forall_mem_singleton.mpr trivial⟩)
  have hopened : s.told m.synchronizer.openNotice = s.setDocument uri text := told_opened ..
  have hdocument : (s.told m.synchronizer.openNotice).document? uri = some text.toList := by
    rw [hopened, document?_setDocument]
  obtain ⟨hlast, hall⟩ := document?_toldAll (b := ⟨text⟩) htext hdocument hchanges hcopy
  refine ⟨hlast, ⟨fun _ changes _ hnone => ?_, hall⟩, fun b hb _ _ =>
    MockText.offsetAt_of_positionAt hb⟩
  -- Where a document is opened there are no changes.
  simp [m, Mirror.start, Synchronizer.openNotice, DocumentNotice.params, Json.get?_mkObj,
    Json.lookup] at hnone

/-- The server had another text. Behind a line feed an edit is made with commits between its hooks,
another one reaches into a character and is refused, and the last line becomes empty. -/
theorem document_of_run_refused :
    let s := (MockServer.start default).setDocument "file:///a" "old"
    let m := Mirror.start "file:///a" "plain" ⟨.incremental, none⟩ "aé\nb"
    let steps := [.edit ⟨4, 1, "üx"⟩ 1 1, .edit ⟨2, 1, "y"⟩ 0 1, .edit ⟨4, 3, ""⟩ 0 0]
    let notices := m.synchronizer.openNotice :: m.notices (steps ++ [.commit])
    IsBasic "aé\nb".toList ∧ (∀ next ∈ steps, next.IsBasic) ∧ m.IsShort steps ∧
      (s.toldAll notices).document? "file:///a" = some "aé\n".toList ∧ notices.length = 4 := by
  intro s m steps notices
  have hsteps : ∀ next ∈ steps, next.IsBasic := by
    simp only [steps, List.forall_mem_cons, DocumentStep.IsBasic]
    exact ⟨by decide, by decide, by decide, nofun⟩
  have hshort : m.IsShort steps :=
    ⟨.inr (Edit.isShortIn_of_unitCount_lt (by decide) _),
      .inr (Edit.isShortIn_of_unitCount_lt (by decide) _), .inl rfl, trivial⟩
  have htext : IsBasic "aé\nb".toList := by decide
  obtain ⟨hlast, -, -⟩ := document_of_run s (.inr rfl) "file:///a" "plain" htext hsteps hshort
  exact ⟨htext, hsteps, hshort, hlast.trans (by decide +kernel), by decide +kernel⟩

end MockServer

end LanguageHub
