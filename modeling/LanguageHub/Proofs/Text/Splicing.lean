import LanguageHub.Proofs.Text.Positions
import LanguageHub.Text.Buffer
import Mathlib.Data.List.Forall2
import Mathlib.Data.List.Pairwise
import Mathlib.Data.List.Perm.Basic

/-!
# Edits made at once

Edits that are made at once are refused exactly when one of them has no span of bytes in the text or
when two of them overlap. Otherwise the outcome is that of making them one after the other, from
the last to the first, and the order in which they came matters for insertions at one place only.
-/

namespace LanguageHub

open Text

/-! ## Spans -/

namespace Span

/-- The replacement of the span. -/
def edit (s : Span) : Edit := ⟨s.start, s.stop - s.start, s.newText⟩

/-- Two spans share a byte, or one of them is empty and strictly inside the other. -/
def Overlaps (s t : Span) : Prop :=
  (∃ n, (s.start ≤ n ∧ n < s.stop) ∧ t.start ≤ n ∧ n < t.stop) ∨
    (s.start = s.stop ∧ t.start < s.start ∧ s.start < t.stop) ∨
    (t.start = t.stop ∧ s.start < t.start ∧ t.start < s.stop)

/-- Numbered spans in order: by start, by end, and last by number. -/
def Precedes (s t : Span × Nat) : Prop :=
  s.1.start < t.1.start ∨ s.1.start = t.1.start ∧
    (s.1.stop < t.1.stop ∨ s.1.stop = t.1.stop ∧ s.2 ≤ t.2)

/-- The span starts and ends between characters of the text. -/
structure IsWithin (cs : List Char) (s : Span) : Prop where
  start_le_stop : s.start ≤ s.stop
  start : IsBoundary cs s.start
  stop : IsBoundary cs s.stop

variable {s t u : Span}

theorem Overlaps.symm (h : s.Overlaps t) : t.Overlaps s := by
  rcases h with ⟨n, hs, ht⟩ | h | h
  · exact .inl ⟨n, ht, hs⟩
  · exact .inr (.inr h)
  · exact .inr (.inl h)

/-- Of two spans in order, the first ends before the second starts, unless they overlap. -/
theorem stop_le_start_iff (ht : t.start ≤ t.stop) (h : le s t) :
    s.stop ≤ t.start ↔ ¬ s.Overlaps t := by
  simp only [le, Bool.or_eq_true, Bool.and_eq_true, decide_eq_true_eq, beq_iff_eq] at h
  constructor
  · rintro hle (⟨n, hn, hn'⟩ | hempty | hempty)
    · omega
    · omega
    · omega
  · intro hapart
    refine Nat.le_of_not_lt fun hlt => hapart ?_
    by_cases hempty : t.start = t.stop
    · exact .inr (.inr ⟨hempty, by omega, hlt⟩)
    · exact .inl ⟨t.start, by omega, by omega⟩

theorem le_trans (s t u : Span) (h : le s t) (h' : le t u) : le s u := by
  simp only [le, Bool.or_eq_true, Bool.and_eq_true, decide_eq_true_eq, beq_iff_eq] at h h' ⊢
  omega

theorem le_total (s t : Span) : (le s t || le t s) = true := by
  simp only [le, Bool.or_eq_true, Bool.and_eq_true, decide_eq_true_eq, beq_iff_eq]
  omega

theorem precedes_of_zipIdxLE {s t : Span × Nat} (h : List.zipIdxLE le s t) : Precedes s t := by
  simp only [List.zipIdxLE, le, Bool.or_eq_true, Bool.and_eq_true, decide_eq_true_eq,
    beq_iff_eq] at h
  unfold Precedes
  split at h
  · split at h
    · have hnumber := of_decide_eq_true h
      omega
    · omega
  · contradiction

/-! ## Replacing spans in order -/

theorem splice_cons {cursor : Nat} {kept removed after : List Char} {spans : List Span}
    (hstart : s.start = cursor + byteCount kept) (hstop : s.stop = s.start + byteCount removed) :
    splice cursor (kept ++ (removed ++ after)) (s :: spans) =
      (splice s.stop after spans).map fun out => kept ++ s.newText.toList ++ out := by
  have hkept : s.start - cursor = byteCount kept := by omega
  have hremoved : s.stop - s.start = byteCount removed := by omega
  rw [splice, if_neg (by omega), hkept, hremoved, cut?_byteCount, Option.getD_some]
  dsimp only
  rw [cut?_byteCount]
  rfl

/-- Spans of which each ends before the next starts are replaced in one pass, and as well one after
the other from the last to the first. -/
theorem splice_eq_ok {cs before rest : List Char} {spans : List Span} (hcs : cs = before ++ rest)
    (hwithin : ∀ s ∈ spans, s.IsWithin cs) (hstart : ∀ s ∈ spans, byteCount before ≤ s.start)
    (hapart : spans.Pairwise fun s t => s.stop ≤ t.start) :
    ∃ out, splice (byteCount before) rest spans = .ok out ∧
      (spans.reverse.map edit).foldlM Buffer.apply ⟨String.ofList cs⟩ =
        .ok ⟨String.ofList (before ++ out)⟩ := by
  induction spans generalizing before rest with
  | nil => exact ⟨rest, rfl, by rw [hcs]; rfl⟩
  | cons s spans ih =>
    obtain ⟨hle, ⟨a, a', ha, hastart⟩, ⟨d, d', hd, hdstop⟩⟩ := hwithin s List.mem_cons_self
    have hbefore := hstart s List.mem_cons_self
    obtain ⟨kept, rfl, rfl⟩ := exists_middle (hcs.symm.trans ha) (by omega)
    obtain ⟨removed, rfl, rfl⟩ := exists_middle (ha.symm.trans hd) (by omega)
    rw [List.pairwise_cons] at hapart
    obtain ⟨out, hsplice, hedits⟩ := ih hd (fun t ht => hwithin t (List.mem_cons_of_mem s ht))
      (fun t ht => hdstop ▸ hapart.1 t ht) hapart.2
    rw [hdstop] at hsplice
    rw [byteCount_append, hastart] at hdstop
    refine ⟨kept ++ s.newText.toList ++ out, ?_, ?_⟩
    · rw [byteCount_append] at hastart
      rw [splice_cons hastart.symm hdstop.symm, hsplice]
      rfl
    · have hremoves : Buffer.Removes ⟨String.ofList (before ++ kept ++ removed ++ out)⟩ s.edit
          (before ++ kept) removed out := by
        refine ⟨by simp, hastart, ?_⟩
        simp only [edit]
        omega
      rw [List.reverse_cons, List.map_append, List.foldlM_append, hedits]
      change List.foldlM Buffer.apply _ [s.edit] = _
      rw [List.foldlM_cons, hremoves.apply]
      simp only [edit, List.append_assoc]
      rfl

theorem exists_of_map_eq_ok {α β ε : Type} {f : α → β} {x : Except ε α} {b : β}
    (h : x.map f = .ok b) : ∃ a, x = .ok a := by
  cases x with
  | error e => contradiction
  | ok a => exact ⟨a, rfl⟩

/-- What is replaced in one pass is apart. -/
theorem apart_of_splice {cursor : Nat} {rest out : List Char} {spans : List Span}
    (h : splice cursor rest spans = .ok out) (hle : ∀ s ∈ spans, s.start ≤ s.stop) :
    (∀ s ∈ spans, cursor ≤ s.start) ∧ spans.Pairwise fun s t => s.stop ≤ t.start := by
  induction spans generalizing cursor rest out with
  | nil => simp
  | cons s spans ih =>
    rw [splice] at h
    split at h
    · contradiction
    · rename_i hcursor
      have hs := hle s List.mem_cons_self
      obtain ⟨out', hout⟩ := exists_of_map_eq_ok h
      obtain ⟨hnext, hapart⟩ := ih hout fun t ht => hle t (List.mem_cons_of_mem s ht)
      refine ⟨?_, List.pairwise_cons.mpr ⟨hnext, hapart⟩⟩
      intro t ht
      rcases List.mem_cons.mp ht with rfl | ht
      · omega
      · have hst := hnext t ht
        omega

/-! ## The order of spans -/

/-- The spans start and end at the same bytes. -/
def samePlace (s t : Span) : Bool := s.start == t.start && s.stop == t.stop

theorem samePlace_iff : samePlace s t ↔ s.start = t.start ∧ s.stop = t.stop := by
  simp [samePlace]

theorem samePlace_of_le (h : le s t) (h' : le t s) : samePlace s t := by
  rw [samePlace_iff]
  simp only [le, Bool.or_eq_true, Bool.and_eq_true, decide_eq_true_eq, beq_iff_eq] at h h'
  omega

/-- Ordering keeps spans of the same place in the order in which they came. -/
theorem filter_mergeSort (s : Span) (spans : List Span) :
    (spans.mergeSort le).filter (samePlace s) = spans.filter (samePlace s) := by
  have hties : (spans.filter (samePlace s)).Pairwise fun t u => le t u := by
    refine List.pairwise_of_forall_mem_list fun t ht u hu => ?_
    have hst := samePlace_iff.mp (List.mem_filter.mp ht).2
    have hsu := samePlace_iff.mp (List.mem_filter.mp hu).2
    simp only [le, Bool.or_eq_true, Bool.and_eq_true, decide_eq_true_eq, beq_iff_eq]
    omega
  have hkept := (List.sublist_mergeSort le_trans le_total hties List.filter_sublist).filter
    (samePlace s)
  rw [List.filter_filter, funext fun t => Bool.and_self (samePlace s t)] at hkept
  exact (hkept.eq_of_length ((List.mergeSort_perm spans le).filter _).length_eq.symm).symm

/-- Ordered spans are the same when those of the same place come in the same order. -/
theorem eq_of_ordered {spans spans' : List Span} (h : spans.Pairwise fun s t => le s t)
    (h' : spans'.Pairwise fun s t => le s t) (hperm : spans.Perm spans')
    (hties : ∀ s, spans.filter (samePlace s) = spans'.filter (samePlace s)) : spans = spans' := by
  induction spans generalizing spans' with
  | nil => exact hperm.nil_eq
  | cons s rest ih =>
    cases spans' with
    | nil => exact absurd hperm.length_eq (by simp)
    | cons s' rest' =>
      rw [List.pairwise_cons] at h h'
      have hself : ∀ t : Span, le t t := fun t => by simpa using le_total t t
      have hss' : le s s' := by
        rcases List.mem_cons.mp (hperm.mem_iff.mpr List.mem_cons_self) with heq | hmem
        · exact heq ▸ hself _
        · exact h.1 s' hmem
      have hs's : le s' s := by
        rcases List.mem_cons.mp (hperm.mem_iff.mp List.mem_cons_self) with heq | hmem
        · exact heq ▸ hself _
        · exact h'.1 s hmem
      -- Both come first among the spans of their place.
      have hfirst := hties s
      rw [List.filter_cons_of_pos (samePlace_of_le (hself s) (hself s)),
        List.filter_cons_of_pos (samePlace_of_le hss' hs's)] at hfirst
      obtain rfl := (List.cons.inj hfirst).1
      refine congrArg (s :: ·) (ih h.2 h'.2 hperm.cons_inv fun t => ?_)
      have ht := hties t
      rw [List.filter_cons, List.filter_cons] at ht
      split at ht
      · exact (List.cons.inj ht).2
      · exact ht

/-- Of spans that do not overlap only empty ones have the same place. -/
theorem filter_samePlace_of_apart {spans : List Span} (hle : ∀ t ∈ spans, t.start ≤ t.stop)
    (hapart : spans.Pairwise fun t u => ¬ t.Overlaps u) (hs : s.start ≠ s.stop) :
    (spans.filter (samePlace s)).length ≤ 1 := by
  have hrest := hapart.filter (samePlace s)
  match hfilter : spans.filter (samePlace s) with
  | [] => simp
  | [t] => simp
  | t :: u :: rest =>
    rw [hfilter] at hrest
    have hmem : ∀ v ∈ [t, u], v.start ≤ v.stop ∧ s.start = v.start ∧ s.stop = v.stop := by
      intro v hv
      have hv' : v ∈ spans.filter (samePlace s) := by
        rw [hfilter]
        exact List.mem_append_left rest hv
      obtain ⟨hv', hsame⟩ := List.mem_filter.mp hv'
      exact ⟨hle v hv', samePlace_iff.mp hsame⟩
    have ht := hmem t (by simp)
    have hu := hmem u (by simp)
    have hne := (List.pairwise_cons.mp hrest).1 u List.mem_cons_self
    exact absurd (.inl ⟨s.start, by omega, by omega⟩) hne

theorem mergeSort_eq_of_perm {spans spans' : List Span} (hperm : spans.Perm spans')
    (hle : ∀ t ∈ spans, t.start ≤ t.stop) (hapart : spans.Pairwise fun t u => ¬ t.Overlaps u)
    (hempty : ∀ s, s.start = s.stop →
      spans.filter (samePlace s) = spans'.filter (samePlace s)) :
    spans.mergeSort le = spans'.mergeSort le := by
  refine eq_of_ordered (List.pairwise_mergeSort le_trans le_total spans)
    (List.pairwise_mergeSort le_trans le_total spans') ?_ fun s => ?_
  · exact (List.mergeSort_perm spans le).trans
      (hperm.trans (List.mergeSort_perm spans' le).symm)
  · rw [filter_mergeSort, filter_mergeSort]
    by_cases hs : s.start = s.stop
    · exact hempty s hs
    · have hone := filter_samePlace_of_apart hle hapart hs
      have hsame := hperm.filter (samePlace s)
      match hfilter : spans.filter (samePlace s) with
      | [] => rw [hfilter] at hsame; exact hsame.nil_eq
      | [t] => rw [hfilter] at hsame; exact (List.perm_singleton.mp hsame.symm).symm
      | t :: u :: rest => rw [hfilter] at hone; simp at hone

end Span

/-! ## The spans of edits -/

namespace TextEdit

variable {b : Buffer} {e : TextEdit} {s : Span}

/-- The edit replaces the bytes of the span. -/
def Replaces (b : Buffer) (e : TextEdit) (s : Span) : Prop :=
  b.offsetAt e.range.start = some s.start ∧ b.offsetAt e.range.stop = some s.stop ∧
    e.newText = s.newText

/-- The edit's range has a line that is not in the text. -/
def IsOutside (b : Buffer) (e : TextEdit) : Prop :=
  b.text.toList.count '\n' < e.range.start.line ∨ b.text.toList.count '\n' < e.range.stop.line

/-- The edit's range ends before it starts. -/
def IsInverted (b : Buffer) (e : TextEdit) : Prop := ∃ s, e.Replaces b s ∧ s.stop < s.start

def Overlaps (b : Buffer) (e e' : TextEdit) : Prop :=
  ∃ s t, e.Replaces b s ∧ e'.Replaces b t ∧ s.Overlaps t

/-- The edit takes nothing out, at this offset. -/
def insertsAt (b : Buffer) (offset : Nat) (e : TextEdit) : Bool :=
  b.offsetAt e.range.start = some offset ∧ b.offsetAt e.range.stop = some offset

/-- The span of an edit whose range is in the text. -/
def span (b : Buffer) (e : TextEdit) : Span :=
  ⟨(b.offsetAt e.range.start).getD 0, (b.offsetAt e.range.stop).getD 0, e.newText⟩

theorem Replaces.eq_span (h : e.Replaces b s) : s = e.span b := by
  obtain ⟨hstart, hstop, htext⟩ := h
  rw [span, hstart, hstop, htext]
  rfl

theorem replaces_span (h : ¬ e.IsOutside b) : e.Replaces b (e.span b) := by
  unfold IsOutside at h
  rw [← offsetAt_eq_none_iff, ← offsetAt_eq_none_iff, not_or] at h
  obtain ⟨start, hstart⟩ := Option.ne_none_iff_exists'.mp h.1
  obtain ⟨stop, hstop⟩ := Option.ne_none_iff_exists'.mp h.2
  have hstart' : b.offsetAt e.range.start = some start := hstart
  have hstop' : b.offsetAt e.range.stop = some stop := hstop
  refine ⟨?_, ?_, rfl⟩
  · simp [span, hstart']
  · simp [span, hstop']

theorem isWithin_span (hinside : ¬ e.IsOutside b) (hordered : ¬ e.IsInverted b) :
    (e.span b).IsWithin b.text.toList := by
  have hspan := replaces_span hinside
  obtain ⟨start, after, htext, hstart, -⟩ := exists_standsFor hspan.1
  obtain ⟨stop, after', htext', hstop, -⟩ := exists_standsFor hspan.2.1
  exact ⟨Nat.le_of_not_lt fun hlt => hordered ⟨_, hspan, hlt⟩, ⟨start, after, htext, hstart⟩,
    ⟨stop, after', htext', hstop⟩⟩

theorem ofTextEdit_eq_ok (hinside : ¬ e.IsOutside b) (hordered : ¬ e.IsInverted b) :
    Span.ofTextEdit b e = .ok (e.span b) := by
  have hspan := replaces_span hinside
  have hle := (isWithin_span hinside hordered).start_le_stop
  unfold Span.ofTextEdit
  rw [hspan.1, hspan.2.1]
  simp only [if_neg (Nat.not_lt.mpr hle)]
  rfl

theorem ofTextEdit_eq_error (h : e.IsOutside b ∨ e.IsInverted b) :
    ∃ fault, Span.ofTextEdit b e = .error fault := by
  unfold Span.ofTextEdit
  rcases h with houtside | ⟨s, ⟨hstart, hstop, -⟩, hlt⟩
  · unfold IsOutside at houtside
    rw [← offsetAt_eq_none_iff, ← offsetAt_eq_none_iff] at houtside
    rcases houtside with hnone | hnone
    · have hstart : b.offsetAt e.range.start = none := hnone
      rw [hstart]
      exact ⟨_, rfl⟩
    · have hstop : b.offsetAt e.range.stop = none := hnone
      rw [hstop]
      cases b.offsetAt e.range.start <;> exact ⟨_, rfl⟩
  · rw [hstart, hstop]
    simp only [if_pos hlt]
    exact ⟨_, rfl⟩

end TextEdit

theorem mapM_eq_ok {α β ε : Type} {f : α → Except ε β} {g : α → β} {xs : List α}
    (h : ∀ a ∈ xs, f a = .ok (g a)) : xs.mapM f = .ok (xs.map g) := by
  induction xs with
  | nil => rfl
  | cons a xs ih =>
    rw [List.mapM_cons, h a List.mem_cons_self, ih fun b hb => h b (List.mem_cons_of_mem a hb)]
    rfl

theorem mapM_eq_error {α β ε : Type} {f : α → Except ε β} {xs : List α}
    (h : ∃ a ∈ xs, ∃ fault, f a = .error fault) : ∃ fault, xs.mapM f = .error fault := by
  induction xs with
  | nil => simp at h
  | cons a xs ih =>
    rw [List.mapM_cons]
    cases ha : f a with
    | error fault => exact ⟨fault, rfl⟩
    | ok c =>
      obtain ⟨b, hb, fault, hfault⟩ := h
      rcases List.mem_cons.mp hb with rfl | hb
      · rw [ha] at hfault
        contradiction
      · obtain ⟨fault', hrest⟩ := ih ⟨b, hb, fault, hfault⟩
        rw [hrest]
        exact ⟨fault', rfl⟩

namespace Buffer

/-- Some edit has no span in the text, or two of them overlap. -/
def Refuses (b : Buffer) (edits : List TextEdit) : Prop :=
  (∃ e ∈ edits, e.IsOutside b) ∨ (∃ e ∈ edits, e.IsInverted b) ∨
    ∃ e e', [e, e'].Sublist edits ∧ e.Overlaps b e'

variable {b : Buffer} {edits : List TextEdit}

/-- The spans of the edits, each where it came. -/
def spans (b : Buffer) (edits : List TextEdit) : List Span := edits.map (·.span b)

/-- Every edit has a span in the text. -/
def HasSpans (b : Buffer) (edits : List TextEdit) : Prop :=
  ∀ e ∈ edits, ¬ e.IsOutside b ∧ ¬ e.IsInverted b

/-- No two of the edits overlap. -/
def AreApart (b : Buffer) (edits : List TextEdit) : Prop :=
  (b.spans edits).Pairwise fun s t => ¬ s.Overlaps t

theorem isWithin_of_mem_spans (h : b.HasSpans edits) {s : Span} (hs : s ∈ b.spans edits) :
    s.IsWithin b.text.toList := by
  obtain ⟨e, he, rfl⟩ := List.mem_map.mp hs
  exact TextEdit.isWithin_span (h e he).1 (h e he).2

theorem areApart_iff (h : b.HasSpans edits) :
    b.AreApart edits ↔ ¬ ∃ e e', [e, e'].Sublist edits ∧ e.Overlaps b e' := by
  unfold AreApart spans
  rw [List.pairwise_map, List.pairwise_iff_forall_sublist]
  constructor
  · rintro hapart ⟨e, e', hsub, s, t, hs, ht, hoverlap⟩
    rw [hs.eq_span, ht.eq_span] at hoverlap
    exact hapart hsub hoverlap
  · intro hnone e e' hsub hoverlap
    have hmem : ∀ d ∈ [e, e'], ¬ d.IsOutside b := fun d hd => (h d (hsub.subset hd)).1
    exact hnone ⟨e, e', hsub, _, _, TextEdit.replaces_span (hmem e (by simp)),
      TextEdit.replaces_span (hmem e' (by simp)), hoverlap⟩

theorem not_refuses_iff : ¬ b.Refuses edits ↔ b.HasSpans edits ∧ b.AreApart edits := by
  constructor
  · intro h
    have hspans : b.HasSpans edits := fun e he =>
      ⟨fun hout => h (.inl ⟨e, he, hout⟩), fun hinv => h (.inr (.inl ⟨e, he, hinv⟩))⟩
    exact ⟨hspans, (areApart_iff hspans).mpr fun hoverlap => h (.inr (.inr hoverlap))⟩
  · rintro ⟨hspans, hapart⟩ (⟨e, he, hout⟩ | ⟨e, he, hinv⟩ | hoverlap)
    · exact (hspans e he).1 hout
    · exact (hspans e he).2 hinv
    · exact (areApart_iff hspans).mp hapart hoverlap

/-! ## The outcome -/

/-- The spans of the edits in order. -/
def ordered (b : Buffer) (edits : List TextEdit) : List Span := (b.spans edits).mergeSort Span.le

theorem isWithin_of_mem_ordered (h : b.HasSpans edits) {s : Span} (hs : s ∈ b.ordered edits) :
    s.IsWithin b.text.toList :=
  isWithin_of_mem_spans h ((List.mergeSort_perm _ _).mem_iff.mp hs)

theorem areApart_iff_ordered (h : b.HasSpans edits) :
    b.AreApart edits ↔ (b.ordered edits).Pairwise fun s t => s.stop ≤ t.start := by
  have horder : (b.ordered edits).Pairwise fun s t => Span.le s t :=
    List.pairwise_mergeSort Span.le_trans Span.le_total _
  have hstops : ∀ {s t : Span}, t ∈ b.ordered edits → Span.le s t →
      (s.stop ≤ t.start ↔ ¬ s.Overlaps t) := fun ht =>
    Span.stop_le_start_iff (isWithin_of_mem_ordered h ht).start_le_stop
  unfold AreApart
  rw [(List.mergeSort_perm (b.spans edits) Span.le).symm.pairwise_iff
    fun hst hts => hst (Span.Overlaps.symm hts)]
  constructor
  · intro hapart
    exact (horder.and hapart).imp_of_mem fun _ ht h => (hstops ht h.1).mpr h.2
  · intro hapart
    exact (horder.and hapart).imp_of_mem fun _ ht h => (hstops ht h.1).mp h.2

theorem applyAll_of_hasSpans (h : b.HasSpans edits) :
    b.applyAll edits = (Span.splice 0 b.text.toList (b.ordered edits)).map String.ofList := by
  unfold applyAll
  rw [mapM_eq_ok fun e he => TextEdit.ofTextEdit_eq_ok (h e he).1 (h e he).2]
  rfl

theorem exists_applyAll_eq_ok (h : b.HasSpans edits) (hapart : b.AreApart edits) :
    ∃ text, b.applyAll edits = .ok text ∧
      ((b.ordered edits).reverse.map Span.edit).foldlM Buffer.apply b = .ok ⟨text⟩ := by
  have htext : b.text.toList = [] ++ b.text.toList := rfl
  obtain ⟨out, hout, hedits⟩ := Span.splice_eq_ok htext
    (fun s hs => isWithin_of_mem_ordered h hs) (fun s _ => Nat.zero_le s.start)
    ((areApart_iff_ordered h).mp hapart)
  refine ⟨String.ofList out, ?_, ?_⟩
  · rw [applyAll_of_hasSpans h]
    exact congrArg (Except.map String.ofList) hout
  · rw [String.ofList_toList] at hedits
    exact hedits

theorem exists_applyAll_eq_error (h : b.Refuses edits) :
    ∃ fault, b.applyAll edits = .error fault := by
  by_cases hspans : b.HasSpans edits
  · cases hout : b.applyAll edits with
    | error fault => exact ⟨fault, rfl⟩
    | ok text =>
      rw [applyAll_of_hasSpans hspans] at hout
      obtain ⟨out, hsplice⟩ := Span.exists_of_map_eq_ok hout
      have hapart := (Span.apart_of_splice hsplice fun s hs =>
        (isWithin_of_mem_ordered hspans hs).start_le_stop).2
      exact absurd h (not_refuses_iff.mpr ⟨hspans, (areApart_iff_ordered hspans).mpr hapart⟩)
  · obtain ⟨e, he, hbad⟩ : ∃ e ∈ edits, e.IsOutside b ∨ e.IsInverted b := by
      refine Classical.byContradiction fun hnone => hspans fun e he => ?_
      exact ⟨fun hout => hnone ⟨e, he, .inl hout⟩, fun hinv => hnone ⟨e, he, .inr hinv⟩⟩
    obtain ⟨fault, hfault⟩ := mapM_eq_error ⟨e, he, TextEdit.ofTextEdit_eq_error hbad⟩
    unfold applyAll
    rw [hfault]
    exact ⟨fault, rfl⟩

theorem hasSpans_perm {edits' : List TextEdit} (h : edits'.Perm edits) :
    b.HasSpans edits' ↔ b.HasSpans edits := by
  unfold HasSpans
  simp only [h.mem_iff]

theorem spans_perm {edits' : List TextEdit} (h : edits'.Perm edits) :
    (b.spans edits').Perm (b.spans edits) := h.map _

theorem areApart_perm {edits' : List TextEdit} (h : edits'.Perm edits) :
    b.AreApart edits' ↔ b.AreApart edits :=
  (spans_perm h).pairwise_iff fun hst hts => hst (Span.Overlaps.symm hts)

/-- The order matters for insertions at one place only. -/
theorem ordered_eq_of_perm {edits' : List TextEdit} (h : edits'.Perm edits)
    (hspans : b.HasSpans edits) (hapart : b.AreApart edits)
    (hinsertions : ∀ offset, edits'.filter (·.insertsAt b offset) =
      edits.filter (·.insertsAt b offset)) : b.ordered edits' = b.ordered edits := by
  have hinserts : ∀ (s : Span), s.start = s.stop → ∀ e ∈ edits,
      Span.samePlace s (e.span b) = e.insertsAt b s.start := by
    intro s hs e he
    obtain ⟨hstart, hstop, -⟩ := TextEdit.replaces_span (hspans e he).1
    rw [Bool.eq_iff_iff, Span.samePlace_iff, TextEdit.insertsAt, hstart, hstop, ← hs]
    simp only [Option.some.injEq, decide_eq_true_eq]
    omega
  refine (Span.mergeSort_eq_of_perm (spans_perm h).symm
    (fun s hs => (isWithin_of_mem_spans hspans hs).start_le_stop) hapart fun s hs => ?_).symm
  unfold spans
  rw [List.filter_map, List.filter_map]
  refine congrArg (List.map _) ?_
  calc edits.filter (Span.samePlace s ∘ (·.span b))
      = edits.filter (·.insertsAt b s.start) := List.filter_congr (hinserts s hs)
    _ = edits'.filter (·.insertsAt b s.start) := (hinsertions s.start).symm
    _ = edits'.filter (Span.samePlace s ∘ (·.span b)) :=
      (List.filter_congr fun e he => hinserts s hs e (h.mem_iff.mp he)).symm

/-- Edits that are made at once are refused exactly when the text lacks a line of theirs, a range
ends before it starts, or two of them overlap. Otherwise the outcome is that of the replacements
one after the other, from the last to the first by start, end and number. The order in which the
edits come matters for insertions at one offset only. -/
theorem applyAll_spec (b : Buffer) (edits : List TextEdit) :
    ((∃ fault, b.applyAll edits = .error fault) ↔ b.Refuses edits) ∧
    (¬ b.Refuses edits → ∃ (spans : List Span) (numbered : List (Span × Nat)) (text : String),
      List.Forall₂ (TextEdit.Replaces b) edits spans ∧
      numbered.Perm spans.zipIdx ∧ numbered.Pairwise Span.Precedes ∧
      b.applyAll edits = .ok text ∧
      (numbered.reverse.map fun s => s.1.edit).foldlM Buffer.apply b = .ok ⟨text⟩) ∧
    ∀ edits', edits'.Perm edits →
      (∀ offset, edits'.filter (·.insertsAt b offset) = edits.filter (·.insertsAt b offset)) →
      (b.applyAll edits').toOption = (b.applyAll edits).toOption := by
  refine ⟨⟨?_, exists_applyAll_eq_error⟩, ?_, ?_⟩
  · rintro ⟨fault, hfault⟩
    refine Classical.byContradiction fun hallowed => ?_
    obtain ⟨hspans, hapart⟩ := not_refuses_iff.mp hallowed
    obtain ⟨text, htext, -⟩ := exists_applyAll_eq_ok hspans hapart
    rw [hfault] at htext
    contradiction
  · intro hallowed
    obtain ⟨hspans, hapart⟩ := not_refuses_iff.mp hallowed
    obtain ⟨text, htext, hedits⟩ := exists_applyAll_eq_ok hspans hapart
    refine ⟨b.spans edits, (b.spans edits).zipIdx.mergeSort (List.zipIdxLE Span.le), text, ?_,
      List.mergeSort_perm _ _, ?_, htext, ?_⟩
    · rw [spans, List.forall₂_map_right_iff, List.forall₂_same]
      exact fun e he => TextEdit.replaces_span (hspans e he).1
    · exact (List.pairwise_mergeSort (List.zipIdxLE_trans Span.le_trans)
        (List.zipIdxLE_total Span.le_total) _).imp Span.precedes_of_zipIdxLE
    · have hnumbers : ((b.spans edits).zipIdx.mergeSort (List.zipIdxLE Span.le)).map (·.1) =
          b.ordered edits := List.mergeSort_zipIdx
      rw [← hedits, ← hnumbers, ← List.map_reverse, List.map_map]
      rfl
  · intro edits' hperm hinsertions
    by_cases hallowed : b.HasSpans edits ∧ b.AreApart edits
    · obtain ⟨hspans, hapart⟩ := hallowed
      rw [applyAll_of_hasSpans hspans, applyAll_of_hasSpans ((hasSpans_perm hperm).mpr hspans),
        ordered_eq_of_perm hperm hspans hapart hinsertions]
    · have hallowed' : ¬ (b.HasSpans edits' ∧ b.AreApart edits') := by
        rwa [hasSpans_perm hperm, areApart_perm hperm]
      rw [← not_refuses_iff, Classical.not_not] at hallowed hallowed'
      obtain ⟨fault, hfault⟩ := exists_applyAll_eq_error hallowed
      obtain ⟨fault', hfault'⟩ := exists_applyAll_eq_error hallowed'
      rw [hfault, hfault']
      rfl

/-- Two insertions at the start of a replacement, which came first. -/
example : Buffer.applyAll ⟨"ab"⟩ [⟨⟨⟨0, 1⟩, ⟨0, 2⟩⟩, "B"⟩, ⟨⟨⟨0, 1⟩, ⟨0, 1⟩⟩, "x"⟩,
    ⟨⟨⟨0, 1⟩, ⟨0, 1⟩⟩, "y"⟩] = .ok "axyB" := by cbv

end Buffer

end LanguageHub
