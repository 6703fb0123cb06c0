import LanguageHub.Proofs.Document.Tracking
import Mathlib.Algebra.Group.Nat.Defs

/-!
# The server's copy follows the editor

After any run of edits and commits the server's copy is the editor's text as soon as one
more commit finds no edit under way.
-/

namespace LanguageHub

/-- What happens to a document. -/
inductive DocumentStep where
  /-- An edit, shown before and after it is tried, with some commits in between. -/
  | edit (edit : Edit) (commitsBefore commitsAfter : Nat)
  | commit
  deriving DecidableEq, Repr

/-- A short edit, if there are commits between its two hooks. -/
def DocumentStep.IsShortIn (text : Buffer) : DocumentStep → Prop
  | edit e before after => before + after = 0 ∨ e.IsShortIn text
  | commit => True

/-- The editor's text, what is collected for a server, and the server's copy. -/
structure Mirror where
  text : Buffer
  synchronizer : Synchronizer
  copy : Option Buffer

namespace Mirror

def start (uri languageId : String) (settings : SyncSettings) (text : String) : Mirror :=
  let synchronizer := Synchronizer.start uri languageId settings text
  ⟨⟨text⟩, synchronizer, synchronizer.openNotice.copied none⟩

def commit (m : Mirror) : Mirror :=
  { m with
    synchronizer := m.synchronizer.takeCommit.2
    copy := m.synchronizer.committed m.copy }

def shown (m : Mirror) (e : Edit) : Mirror :=
  { m with synchronizer := m.synchronizer.beforeChange m.text e }

def tried (m : Mirror) (e : Edit) : Mirror := { m with text := m.text.after e }

def shownAgain (m : Mirror) : Mirror :=
  { m with synchronizer := m.synchronizer.afterChange m.text }

def step (m : Mirror) : DocumentStep → Mirror
  | .edit e before after =>
    (Nat.repeat commit after ((Nat.repeat commit before (m.shown e)).tried e)).shownAgain
  | .commit => m.commit

def run (m : Mirror) (steps : List DocumentStep) : Mirror := steps.foldl step m

/-- Every step of the run is short in the text it finds. -/
def IsShort (m : Mirror) : List DocumentStep → Prop
  | [] => True
  | next :: rest => next.IsShortIn m.text ∧ (m.step next).IsShort rest

/-- The server has a copy, and the collected changes lead from it to the editor's text. -/
def Agrees (m : Mirror) (phase : EditPhase) : Prop :=
  ∃ copy, m.copy = some copy ∧ m.synchronizer.Tracks copy m.text phase

def Settled (m : Mirror) (phase : EditPhase) : Prop := m.synchronizer.Settled m.text phase

variable {m : Mirror} {phase : EditPhase}

theorem agrees_start {settings : SyncSettings}
    (hkind : settings.kind = .full ∨ settings.kind = .incremental)
    (uri languageId text : String) : (start uri languageId settings text).Agrees .idle :=
  ⟨⟨text⟩, rfl, Synchronizer.tracks_start hkind uri languageId ⟨text⟩⟩

theorem Agrees.commit (h : m.Agrees phase) (hsettled : m.Settled phase) :
    m.commit.Agrees phase ∧ (phase = .idle → m.commit.copy = some m.text) := by
  obtain ⟨copy, hcopy, htracks⟩ := h
  obtain ⟨copy', hcopy', htracks', hidle⟩ := htracks.takeCommit hsettled
  rw [← hcopy] at hcopy'
  refine ⟨⟨copy', hcopy', htracks'⟩, fun hphase => ?_⟩
  rw [← hidle hphase]
  exact hcopy'

/-- Any number of commits may fall between two hooks. -/
theorem Agrees.commits (h : m.Agrees phase) (hsettled : m.Settled phase) (n : Nat) :
    (Nat.repeat Mirror.commit n m).Agrees phase ∧ (Nat.repeat Mirror.commit n m).Settled phase ∧
      (Nat.repeat Mirror.commit n m).text = m.text := by
  induction n with
  | zero => exact ⟨h, hsettled, rfl⟩
  | succ n ih =>
    obtain ⟨hagrees, hsettled', htext⟩ := ih
    exact ⟨(hagrees.commit hsettled').1, Synchronizer.settled_takeCommit _ _ _, htext⟩

theorem Agrees.edit (h : m.Agrees .idle) {e : Edit} {before after : Nat}
    (hshort : (DocumentStep.edit e before after).IsShortIn m.text) :
    (m.step (.edit e before after)).Agrees .idle := by
  obtain ⟨copy, hcopy, htracks⟩ := h
  have hshown : (m.shown e).Agrees (.shown e) := ⟨copy, hcopy, htracks.beforeChange e⟩
  rcases hshort with hnone | hshort
  · -- Without commits between the hooks nothing else is needed.
    obtain ⟨rfl, rfl⟩ : before = 0 ∧ after = 0 := by omega
    exact ⟨copy, hcopy, (htracks.beforeChange e).tried.afterChange⟩
  · have hsettled : (m.shown e).Settled (.shown e) :=
      Synchronizer.settled_beforeChange htracks hshort
    obtain ⟨⟨c₁, hc₁, h₁⟩, hs₁, -⟩ := hshown.commits hsettled before
    have htried : ((Nat.repeat Mirror.commit before (m.shown e)).tried e).Agrees .tried :=
      ⟨c₁, hc₁, h₁.tried⟩
    obtain ⟨⟨c₂, hc₂, h₂⟩, -, -⟩ := htried.commits hs₁.tried after
    exact ⟨c₂, hc₂, h₂.afterChange⟩

theorem Agrees.settled_of_idle (h : m.Agrees .idle) : m.Settled .idle := by
  obtain ⟨copy, -, htracks⟩ := h
  exact htracks.settled_of_idle

theorem Agrees.step (h : m.Agrees .idle) {next : DocumentStep} (hshort : next.IsShortIn m.text) :
    (m.step next).Agrees .idle := by
  cases next with
  | edit e before after => exact h.edit hshort
  | commit => exact (h.commit h.settled_of_idle).1

theorem Agrees.run {steps : List DocumentStep} (h : m.Agrees .idle) (hshort : m.IsShort steps) :
    (m.run steps).Agrees .idle := by
  induction steps generalizing m with
  | nil => exact h
  | cons next rest ih => exact ih (h.step hshort.1) hshort.2

/-- After every commit that finds no edit under way the server has the editor's text. All
changes on the way were such that the server could make them. -/
theorem copy_eq_text_after_commit {settings : SyncSettings}
    (hkind : settings.kind = .full ∨ settings.kind = .incremental) (uri languageId text : String)
    {steps : List DocumentStep} (hshort : (start uri languageId settings text).IsShort steps) :
    ((start uri languageId settings text).run (steps ++ [.commit])).copy =
      some ((start uri languageId settings text).run (steps ++ [.commit])).text := by
  have hagrees := (agrees_start hkind uri languageId text).run hshort
  rw [Mirror.run, List.foldl_append]
  exact (hagrees.commit hagrees.settled_of_idle).2 rfl

/-- Behind a line feed and a pair of surrogates an edit is made with commits between its
hooks, and another one is refused. -/
theorem copy_eq_text_after_refused_edit :
    let m := start "file:///a" "plain" ⟨.incremental, none⟩ "aé\n😀b"
    let steps := [.edit ⟨8, 1, "ü"⟩ 1 1, .edit ⟨2, 2 ^ 64 - 1, "x"⟩ 1 1]
    m.IsShort steps ∧ (m.run (steps ++ [.commit])).copy = some (m.run (steps ++ [.commit])).text ∧
      (m.run steps).text = ⟨"aé\n😀ü"⟩ := by
  have hshort : (start "file:///a" "plain" ⟨.incremental, none⟩ "aé\n😀b").IsShort
      [.edit ⟨8, 1, "ü"⟩ 1 1, .edit ⟨2, 2 ^ 64 - 1, "x"⟩ 1 1] :=
    ⟨.inr (Edit.isShortIn_of_unitCount_lt (by decide) _),
      .inr (Edit.isShortIn_of_unitCount_lt (by decide) _), trivial⟩
  exact ⟨hshort, copy_eq_text_after_commit (.inr rfl) _ _ _ hshort, by decide⟩

end Mirror

end LanguageHub

/-!
# Edits without a range

An edit whose range does not count in the old text is sent as the whole new text, which is known
only after the edit. A host may make anything of such an edit.

The server has the host's text after every commit outside the hooks of an edit, unless a commit fell
between the hooks of an edit without a range: it sends the old text in place of the new one, and the
new one is never sent.
-/

namespace LanguageHub

open Synchronizer (rangedChange?)

/-- What a host does to a document. -/
inductive HostStep where
  /-- The two hooks of an edit with some commits in between. Without a range the edit leads to this
  text. -/
  | pair (edit : Edit) (commits : Nat) (text : String)
  | commit
  deriving DecidableEq, Repr

namespace HostStep

/-- The host's text after the step. -/
def textAfter (b : Buffer) : HostStep → Buffer
  | pair e _ text => if (rangedChange? b e).isSome then b.after e else ⟨text⟩
  | commit => b

/-- A commit takes the place that was held for the new text. -/
def IsLostIn (b : Buffer) : HostStep → Prop
  | pair e commits text => rangedChange? b e = none ∧ 0 < commits ∧ (⟨text⟩ : Buffer) ≠ b
  | commit => False

instance (b : Buffer) (next : HostStep) : Decidable (next.IsLostIn b) :=
  match next with
  | pair .. => inferInstanceAs (Decidable (_ ∧ _ ∧ _))
  | commit => inferInstanceAs (Decidable False)

variable {b : Buffer} {e : Edit} {commits : Nat} {text : String}

theorem textAfter_of_isSome (h : (rangedChange? b e).isSome = true) :
    (pair e commits text).textAfter b = b.after e := if_pos h

theorem textAfter_of_none (h : rangedChange? b e = none) :
    (pair e commits text).textAfter b = ⟨text⟩ := if_neg (by simp [h])

end HostStep

namespace Synchronizer

variable {s : Synchronizer} {served text : Buffer} {e : Edit}

theorem kind_takeCommit (s : Synchronizer) : s.takeCommit.2.kind = s.kind := by
  rw [takeCommit_eq]
  rfl

theorem kind_beforeChange (s : Synchronizer) (b : Buffer) (e : Edit) :
    (s.beforeChange b e).kind = s.kind := by
  unfold beforeChange
  split <;> rfl

theorem lastText_beforeChange (s : Synchronizer) (b : Buffer) (e : Edit) :
    (s.beforeChange b e).lastText = s.lastText := by
  unfold beforeChange
  split <;> rfl

/-- Whatever becomes of an edit without a range, its whole text is to follow. -/
theorem Tracks.beforeChange_unranged (h : s.Tracks served text .idle)
    (hincremental : s.kind = .incremental) (hnone : rangedChange? text e = none) (next : Buffer) :
    (s.beforeChange text e).Tracks served next .tried := by
  obtain ⟨cs, hcs, hready⟩ := h.exists_ready_of_idle
  have hshown : s.beforeChange text e =
      { s with pending := cs.map .ready ++ [.awaitingText] } := by
    simp [Synchronizer.beforeChange, hincremental, hnone, hcs]
  rw [hshown]
  exact ⟨h.kind, fun hphase => absurd rfl hphase, fun hmem => absurd (by simp) hmem,
    fun _ => ⟨hincremental, by simp, cs, text, rfl, hready⟩⟩

/-- With a range nothing waits for the text. -/
theorem settled_beforeChange_ranged (h : s.Tracks served text .idle)
    (hsome : (rangedChange? text e).isSome = true) :
    (s.beforeChange text e).Settled text (.shown e) := by
  obtain ⟨cs, hcs, -⟩ := h.exists_ready_of_idle
  obtain ⟨c, hc⟩ := Option.isSome_iff_exists.mp hsome
  intro hmem
  unfold Synchronizer.beforeChange at hmem
  split at hmem <;> simp [hc, hcs] at hmem

end Synchronizer

namespace Mirror

/-- The host has another text. -/
def become (m : Mirror) (text : Buffer) : Mirror := { m with text }

def host (m : Mirror) (next : HostStep) : Mirror :=
  match next with
  | .pair e commits _ =>
    ((Nat.repeat commit commits (m.shown e)).become (next.textAfter m.text)).shownAgain
  | .commit => m.commit

/-- Between two edits the collected changes lead to the text, and they are sent with ranges. -/
structure Follows (m : Mirror) : Prop where
  agrees : m.Agrees .idle
  kind : m.synchronizer.kind = .incremental

variable {m : Mirror} {next : HostStep} {e : Edit} {commits : Nat}

theorem follows_start {settings : SyncSettings} (hkind : settings.kind = .incremental)
    (uri languageId text : String) : (start uri languageId settings text).Follows :=
  ⟨agrees_start (.inr hkind) uri languageId text, hkind⟩

theorem kind_commits (m : Mirror) (n : Nat) :
    (Nat.repeat commit n m).synchronizer.kind = m.synchronizer.kind := by
  induction n with
  | zero => rfl
  | succ n ih => exact (Synchronizer.kind_takeCommit _).trans ih

theorem kind_host (m : Mirror) (next : HostStep) :
    (m.host next).synchronizer.kind = m.synchronizer.kind := by
  cases next with
  | pair e commits text =>
    exact (kind_commits _ commits).trans (Synchronizer.kind_beforeChange _ _ _)
  | commit => exact kind_commits m 1

/-- The text after the edit is shown to a synchronizer that the edit left with something to
send. -/
theorem Agrees.shownAgain (h : m.Agrees .tried) : m.shownAgain.Agrees .idle := by
  obtain ⟨copy, hcopy, htracks⟩ := h
  exact ⟨copy, hcopy, htracks.afterChange⟩

/-- An edit without a range is collected, and whatever commits follow keep to the old text. -/
theorem Follows.between_unranged (h : m.Follows) (hnone : rangedChange? m.text e = none)
    (commits : Nat) : (Nat.repeat Mirror.commit commits (m.shown e)).Agrees .tried ∧
      (Nat.repeat Mirror.commit commits (m.shown e)).text = m.text := by
  obtain ⟨copy, hcopy, htracks⟩ := h.agrees
  have hshown : (m.shown e).Agrees .tried :=
    ⟨copy, hcopy, htracks.beforeChange_unranged h.kind hnone m.text⟩
  have hsettled : (m.shown e).Settled .tried := fun _ =>
    (Synchronizer.lastText_beforeChange _ _ _).trans (htracks.lastText (by simp))
  obtain ⟨hagrees, -, htext⟩ := hshown.commits hsettled commits
  exact ⟨hagrees, htext⟩

theorem Follows.host_ranged (h : m.Follows) (hsome : (rangedChange? m.text e).isSome = true)
    (commits : Nat) (text : String) : (m.host (.pair e commits text)).Agrees .idle := by
  obtain ⟨copy, hcopy, htracks⟩ := h.agrees
  have hshown : (m.shown e).Agrees (.shown e) := ⟨copy, hcopy, htracks.beforeChange e⟩
  have hsettled : (m.shown e).Settled (.shown e) :=
    Synchronizer.settled_beforeChange_ranged htracks hsome
  obtain ⟨⟨served, hserved, htracks'⟩, -, htext⟩ := hshown.commits hsettled commits
  have htext : (Nat.repeat commit commits (m.shown e)).text = m.text := htext
  rw [host, HostStep.textAfter_of_isSome hsome, ← htext]
  exact Agrees.shownAgain ⟨served, hserved, htracks'.tried⟩

theorem Follows.host_unranged (h : m.Follows) (hnone : rangedChange? m.text e = none)
    {text : String} (hkept : commits = 0 ∨ (⟨text⟩ : Buffer) = m.text) :
    (m.host (.pair e commits text)).Agrees .idle := by
  rw [host, HostStep.textAfter_of_none hnone]
  rcases hkept with rfl | hsame
  · -- The place is still held when the new text is shown.
    obtain ⟨copy, hcopy, htracks⟩ := h.agrees
    exact Agrees.shownAgain ⟨copy, hcopy, htracks.beforeChange_unranged h.kind hnone ⟨text⟩⟩
  · obtain ⟨hagrees, htext⟩ := h.between_unranged hnone commits
    rw [hsame, ← htext]
    exact Agrees.shownAgain hagrees

theorem Follows.host (h : m.Follows) (hkept : ¬ next.IsLostIn m.text) : (m.host next).Follows := by
  refine ⟨?_, (kind_host m next).trans h.kind⟩
  cases next with
  | pair e commits text =>
    cases hchange : rangedChange? m.text e with
    | some c => exact h.host_ranged (by simp [hchange]) commits text
    | none =>
      refine h.host_unranged hchange ((Nat.eq_zero_or_pos commits).imp_right fun hcommits => ?_)
      exact Decidable.byContradiction fun hother => hkept ⟨hchange, hcommits, hother⟩
  | commit => exact (h.agrees.commit h.agrees.settled_of_idle).1

/-- Nothing is left to send, and the server has the text. -/
structure Spent (m : Mirror) : Prop where
  kind : m.synchronizer.kind = .incremental
  pending : m.synchronizer.pending = []
  copy : m.copy = some m.text

/-- A text that is only shown afterwards is not sent. -/
theorem Spent.copy_commit (h : m.Spent) (text : Buffer) :
    (m.become text).shownAgain.commit.copy = some m.text := by
  have hchanges : (m.synchronizer.afterChange text).changes = [] := by
    simp [Synchronizer.changes, Synchronizer.afterChange, h.kind, h.pending, SyncKind.full,
      SyncKind.incremental]
  calc (m.become text).shownAgain.commit.copy
      = m.copy.bind (·.receiveAll (m.synchronizer.afterChange text).changes) :=
        Synchronizer.committed_eq _ _
    _ = some m.text := by rw [h.copy, hchanges]; rfl

end Mirror

end LanguageHub
