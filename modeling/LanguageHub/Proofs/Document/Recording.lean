import LanguageHub.Proofs.Document.Tracking
import Mathlib.Data.List.Forall2

/-!
# What is recorded and what is taken

Whatever is shown to a synchronizer between commits, its commits and what it still holds give
back what was recorded: with ranges every edit once and in order, with whole texts the last
text of each time between two commits.
-/

namespace LanguageHub

/-- What a synchronizer is shown around an edit. -/
inductive Hook where
  | before (b : Buffer) (e : Edit)
  | after (b : Buffer)

namespace Hook

def shownTo (s : Synchronizer) : Hook → Synchronizer
  | before b e => s.beforeChange b e
  | after b => s.afterChange b

def edit? : Hook → Option (Buffer × Edit)
  | before b e => some (b, e)
  | after _ => none

def text? : Hook → Option TextChange
  | before _ _ => none
  | after b => some (.whole b.text)

end Hook

namespace TextChange

/-- The change is that of the edit, when its range counts in the buffer, and otherwise a whole
text. -/
def Records (x : Buffer × Edit) (c : TextChange) : Prop :=
  match Synchronizer.rangedChange? x.1 x.2 with
  | some own => c = own
  | none => ∃ text, c = .whole text

end TextChange

namespace Synchronizer

variable {s : Synchronizer} {hooks : List Hook} {taken : List (List TextChange)} {b : Buffer}
  {e : Edit}

/-- What commits took and what the synchronizer still holds, in this order, are what the hooks
recorded. -/
structure Collects (hooks : List Hook) (taken : List (List TextChange)) (s : Synchronizer) :
    Prop where
  incremental : s.kind = .incremental →
    List.Forall₂ TextChange.Records (hooks.filterMap Hook.edit?) (taken.flatten ++ s.changes)
  full : s.kind = .full →
    (taken.flatten ++ s.changes).Sublist (hooks.filterMap Hook.text?) ∧
      (taken.flatten ++ s.changes).getLast? = (hooks.filterMap Hook.text?).getLast?
  single : s.kind = .full → s.pending.length ≤ 1 ∧ ∀ changes ∈ taken, changes.length = 1
  other : s.kind ≠ .full → s.kind ≠ .incremental → taken = [] ∧ s.pending = []

theorem collects_start (uri languageId : String) (settings : SyncSettings) (text : String) :
    (start uri languageId settings text).Collects [] [] :=
  ⟨fun _ => .nil, fun _ => ⟨.slnil, rfl⟩, fun _ => ⟨Nat.zero_le _, by simp⟩,
    fun _ _ => ⟨rfl, rfl⟩⟩

/-! ## One edit -/

theorem range_of_rangedChange? {own : TextChange} (h : rangedChange? b e = some own) :
    own.range ≠ none := by
  simp only [rangedChange?, Option.bind_eq_bind, Option.bind_eq_some_iff] at h
  obtain ⟨start, -, stop, -, removed, -, h⟩ := h
  split at h
  · cases h
    simp
  · cases h

theorem Collects.beforeChange (h : s.Collects hooks taken) (b : Buffer) (e : Edit) :
    (s.beforeChange b e).Collects (hooks ++ [.before b e]) taken := by
  have hedits : (hooks ++ [Hook.before b e]).filterMap Hook.edit? =
      hooks.filterMap Hook.edit? ++ [(b, e)] := by simp [Hook.edit?]
  have htexts : (hooks ++ [Hook.before b e]).filterMap Hook.text? =
      hooks.filterMap Hook.text? := by simp [Hook.text?]
  by_cases hkind : s.kind = .incremental
  · have hnew : ∃ p, (s.beforeChange b e) = { s with pending := s.pending ++ [p] } ∧
        TextChange.Records (b, e) (PendingChange.settle s.lastText p) := by
      simp only [Synchronizer.beforeChange, if_pos hkind, TextChange.Records]
      cases hchange : rangedChange? b e with
      | some own => exact ⟨.ready own, rfl, rfl⟩
      | none => exact ⟨.awaitingText, rfl, _, rfl⟩
    obtain ⟨p, hshown, hrecords⟩ := hnew
    rw [hshown]
    constructor
    case incremental =>
      intro _
      have hchanges : ({ s with pending := s.pending ++ [p] } : Synchronizer).changes =
          s.changes ++ [PendingChange.settle s.lastText p] := by simp [changes]
      rw [hedits, hchanges, ← List.append_assoc]
      exact List.rel_append (h.incremental hkind) (.cons hrecords .nil)
    case full => exact fun hfull => absurd (hfull.symm.trans hkind) (by decide)
    case single => exact fun hfull => absurd (hfull.symm.trans hkind) (by decide)
    case other => exact fun _ hother => absurd hkind hother
  · have hsame : s.beforeChange b e = s := by simp [Synchronizer.beforeChange, hkind]
    rw [hsame]
    exact ⟨fun hincremental => absurd hincremental hkind, fun hfull => htexts ▸ h.full hfull,
      h.single, h.other⟩

/-- A whole text may take the place of one that was still to come. -/
theorem records_withText {x : Buffer × Edit} {p : PendingChange} {lastText : String}
    (h : TextChange.Records x (PendingChange.settle lastText p)) (text : String) :
    TextChange.Records x (PendingChange.settle text (PendingChange.withText text p)) := by
  cases p with
  | ready c => exact h
  | awaitingText =>
    unfold TextChange.Records at h ⊢
    split at h
    · rename_i own hown
      exact absurd (congrArg TextChange.range h).symm (range_of_rangedChange? hown)
    · exact ⟨text, rfl⟩

theorem Collects.afterChange (h : s.Collects hooks taken) (b : Buffer) :
    (s.afterChange b).Collects (hooks ++ [.after b]) taken := by
  have hedits : (hooks ++ [Hook.after b]).filterMap Hook.edit? = hooks.filterMap Hook.edit? := by
    simp [Hook.edit?]
  have htexts : (hooks ++ [Hook.after b]).filterMap Hook.text? =
      hooks.filterMap Hook.text? ++ [.whole b.text] := by simp [Hook.text?]
  have hkind : (s.afterChange b).kind = s.kind := rfl
  constructor
  case incremental =>
    intro hincremental
    rw [hkind] at hincremental
    have hfull : s.kind ≠ .full := by rw [hincremental]; decide
    have hbefore := h.incremental hincremental
    have hchanges : (s.afterChange b).changes = s.pending.map fun p =>
        PendingChange.settle b.text (PendingChange.withText b.text p) := by
      simp only [changes, Synchronizer.afterChange, if_neg hfull, if_pos hincremental,
        List.map_map, Function.comp_def]
    -- The edits whose changes were taken keep them; only those still held may get their text.
    rw [hedits, hchanges,
      ← List.take_append_drop taken.flatten.length (hooks.filterMap Hook.edit?)]
    refine List.rel_append (List.forall₂_take_append _ _ _ hbefore) ?_
    have hlate := List.forall₂_drop_append _ _ _ hbefore
    rw [changes, List.forall₂_map_right_iff] at hlate
    rw [List.forall₂_map_right_iff]
    exact hlate.imp fun x p hrecords => records_withText hrecords b.text
  case full =>
    intro hfull
    rw [hkind] at hfull
    have hchanges : (s.afterChange b).changes = [.whole b.text] := by
      simp [changes, Synchronizer.afterChange, hfull, PendingChange.settle]
    rw [hchanges, htexts]
    refine ⟨?_, by simp⟩
    exact List.Sublist.append ((List.sublist_append_left _ _).trans (h.full hfull).1) (.refl _)
  case single =>
    intro hfull
    rw [hkind] at hfull
    exact ⟨by simp [Synchronizer.afterChange, hfull], (h.single hfull).2⟩
  case other =>
    intro hfull hincremental
    rw [hkind] at hfull hincremental
    obtain ⟨htaken, hpending⟩ := h.other hfull hincremental
    exact ⟨htaken, by simp [Synchronizer.afterChange, hfull, hincremental, hpending]⟩

theorem Collects.shownTo (h : s.Collects hooks taken) (hook : Hook) :
    (hook.shownTo s).Collects (hooks ++ [hook]) taken := by
  cases hook with
  | before b e => exact h.beforeChange b e
  | after b => exact h.afterChange b

/-! ## A commit -/

theorem Collects.takeCommit (h : s.Collects hooks taken) (hsome : s.pending ≠ []) :
    s.takeCommit.2.Collects hooks (taken ++ [s.changes]) := by
  have hcommit : s.takeCommit.2 = { s with version := s.version + 1, pending := [] } := by
    simp [Synchronizer.takeCommit, hsome]
  have hall : (taken ++ [s.changes]).flatten ++ s.takeCommit.2.changes =
      taken.flatten ++ s.changes := by
    rw [hcommit]
    simp [changes]
  have hkind : s.takeCommit.2.kind = s.kind := by
    rw [hcommit]
    rfl
  constructor
  case incremental =>
    intro hincremental
    rw [hall]
    exact h.incremental (hkind ▸ hincremental)
  case full =>
    intro hfull
    rw [hall]
    exact h.full (hkind ▸ hfull)
  case single =>
    intro hfull
    obtain ⟨hshort, hsingle⟩ := h.single (hkind ▸ hfull)
    refine ⟨by simp [hcommit], fun changes hmem => ?_⟩
    rcases List.mem_append.mp hmem with hmem | hmem
    · exact hsingle changes hmem
    · have hpos := List.length_pos_iff.mpr hsome
      rw [List.mem_singleton.mp hmem, Synchronizer.changes, List.length_map]
      omega
  case other =>
    intro hfull hincremental
    exact absurd (h.other (hkind ▸ hfull) (hkind ▸ hincremental)).2 hsome

end Synchronizer

end LanguageHub
