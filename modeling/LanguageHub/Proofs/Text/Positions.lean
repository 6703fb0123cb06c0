import LanguageHub.Proofs.Text.Edits
import LanguageHub.Text.Split

/-!
# Offsets and positions

The places between the characters of a text are numbered by their byte offsets and by their
positions, in the same order. A position that is no place stands for the next place of its line.
-/

namespace LanguageHub

namespace Position

instance : LE Position :=
  ⟨fun p q => p.line < q.line ∨ p.line = q.line ∧ p.character ≤ q.character⟩

instance : LT Position :=
  ⟨fun p q => p.line < q.line ∨ p.line = q.line ∧ p.character < q.character⟩

variable {p q r : Position}

theorem le_def : p ≤ q ↔ p.line < q.line ∨ p.line = q.line ∧ p.character ≤ q.character := Iff.rfl

theorem lt_def : p < q ↔ p.line < q.line ∨ p.line = q.line ∧ p.character < q.character := Iff.rfl

end Position

namespace Text

/-- Between two characters of the text, or at one of its ends. -/
def IsBoundary (cs : List Char) (offset : Nat) : Prop :=
  ∃ before after, cs = before ++ after ∧ byteCount before = offset

theorem isBoundary_zero (cs : List Char) : IsBoundary cs 0 := ⟨[], cs, rfl, rfl⟩

theorem isBoundary_byteCount (cs : List Char) : IsBoundary cs (byteCount cs) :=
  ⟨cs, [], (List.append_nil cs).symm, rfl⟩

theorem IsBoundary.cons {cs : List Char} {offset : Nat} (h : IsBoundary cs offset) (c : Char) :
    IsBoundary (c :: cs) (c.utf8Size + offset) := by
  obtain ⟨before, after, rfl, rfl⟩ := h
  exact ⟨c :: before, after, rfl, rfl⟩

theorem IsBoundary.exists_cut? {cs : List Char} {offset : Nat} (h : IsBoundary cs offset) :
    ∃ parts, cut? offset cs = some parts := by
  obtain ⟨before, after, rfl, rfl⟩ := h
  exact ⟨_, cut?_byteCount before after⟩

/-- The numbers of lines and of columns are words of 32 bits. -/
def HasShortLines (cs : List Char) : Prop :=
  cs.count '\n' < UInt32.size ∧ ∀ line ∈ splitOn '\n' cs, unitCount line < UInt32.size

instance (cs : List Char) : Decidable (HasShortLines cs) :=
  inferInstanceAs (Decidable (_ ∧ ∀ line ∈ splitOn '\n' cs, _))

/-! ## Positions of first parts -/

theorem line_endPosition (cs : List Char) : (endPosition cs).line = cs.count '\n' := by
  induction cs with
  | nil => rfl
  | cons c cs ih =>
    by_cases hc : c = '\n'
    · rw [hc, endPosition_cons_newline, List.count_cons_self, ih]
    · rw [endPosition_cons hc, List.count_cons_of_ne hc, ih]

/-- A column is within the line that has the number of the position. -/
theorem exists_line_endPosition (a b : List Char) :
    ∃ line, (splitOn '\n' (a ++ b))[(endPosition a).line]? = some line ∧
      (endPosition a).character ≤ unitCount line := by
  induction a with
  | nil =>
    cases h : splitOn '\n' b with
    | nil => cases b <;> simp [splitOn] at h; grind
    | cons line lines => exact ⟨line, by simp [endPosition, h], Nat.zero_le _⟩
  | cons c cs ih =>
    obtain ⟨line, hline, hle⟩ := ih
    by_cases hc : c = '\n'
    · subst hc
      exact ⟨line, by simpa [endPosition_cons_newline, splitOn] using hline,
        by simpa [endPosition_cons_newline] using hle⟩
    · rw [endPosition_cons hc, List.cons_append, splitOn, if_neg hc]
      cases h : splitOn '\n' (cs ++ b) with
      | nil => simp [h] at hline
      | cons first rest =>
        rw [h] at hline
        by_cases hzero : (endPosition cs).line = 0
        · simp only [hzero, List.getElem?_cons_zero, Option.some.injEq] at hline
          refine ⟨c :: first, by simp [hzero], ?_⟩
          simp only [hzero, if_true, unitCount, hline]
          omega
        · obtain ⟨n, hn⟩ := Nat.exists_eq_succ_of_ne_zero hzero
          rw [hn] at hline
          exact ⟨line, by simpa [hn] using hline, by simpa [hzero] using hle⟩

theorem HasShortLines.fits {a b : List Char} (h : HasShortLines (a ++ b)) :
    Fits (endPosition a) := by
  obtain ⟨hlines, hcolumns⟩ := h
  obtain ⟨line, hline, hle⟩ := exists_line_endPosition a b
  have hcolumn := hcolumns line (List.mem_of_getElem? hline)
  rw [List.count_append] at hlines
  refine ⟨?_, by omega⟩
  rw [line_endPosition]
  omega

theorem endPosition_pos {cs : List Char} (h : cs ≠ []) : (⟨0, 0⟩ : Position) < endPosition cs := by
  rw [Position.lt_def]
  cases cs with
  | nil => contradiction
  | cons c cs =>
    by_cases hc : c = '\n'
    · simp [hc, endPosition_cons_newline]
    · have hunits := units_pos c
      rw [endPosition_cons hc]
      split <;> simp <;> omega

/-- Each further character leads to a later position. -/
theorem endPosition_lt_append (a : List Char) {b : List Char} (h : b ≠ []) :
    endPosition a < endPosition (a ++ b) := by
  have hb := endPosition_pos h
  rw [endPosition, endPosition, List.foldl_append, foldl_advance (a.foldl advance ⟨0, 0⟩) b]
  rw [Position.lt_def] at hb ⊢
  dsimp only at hb ⊢
  split <;> omega

theorem endPosition_le_append (a b : List Char) : endPosition a ≤ endPosition (a ++ b) := by
  by_cases hb : b = []
  · subst hb
    rw [List.append_nil]
    exact .inr ⟨rfl, Nat.le_refl _⟩
  · have h := endPosition_lt_append a hb
    rw [Position.lt_def] at h
    rw [Position.le_def]
    omega

/-! ## The place that a position stands for -/

/-- The first place that is not before the position, or else the end of its line. -/
structure StandsFor (p : Position) (before after : List Char) : Prop where
  line : (endPosition before).line = p.line
  isFirst : ∀ a b, before = a ++ b → b ≠ [] → endPosition a < p
  isLast : p ≤ endPosition before ∨ ∀ c ∈ after.head?, c = '\n'

theorem standsFor_nil {character : Nat} {after : List Char}
    (h : character = 0 ∨ ∀ c ∈ after.head?, c = '\n') : StandsFor ⟨0, character⟩ [] after where
  line := rfl
  isFirst a b hab hb := absurd (List.append_eq_nil_iff.mp hab.symm).2 hb
  isLast := by
    rcases h with rfl | h
    · exact .inl (.inr ⟨rfl, Nat.le_refl _⟩)
    · exact .inr h

/-- One character more before a place changes the position that stands for it like its own. -/
theorem StandsFor.cons {c : Char} {p p' : Position} {before after : List Char}
    (h : StandsFor p before after) (hstart : (⟨0, 0⟩ : Position) < p')
    (hline : (endPosition before).line = p.line → (endPosition (c :: before)).line = p'.line)
    (hlt : ∀ a, endPosition a < p → endPosition (c :: a) < p')
    (hle : p ≤ endPosition before → p' ≤ endPosition (c :: before)) :
    StandsFor p' (c :: before) after where
  line := hline h.line
  isFirst a b hab hb := by
    cases a with
    | nil => exact hstart
    | cons d a =>
      obtain ⟨rfl, hrest⟩ := List.cons.inj hab
      exact hlt a (h.isFirst a b hrest hb)
  isLast := h.isLast.imp hle id

theorem exists_standsFor_columnOffset (wanted : Nat) (cs : List Char) :
    ∃ before after, cs = before ++ after ∧ byteCount before = columnOffset wanted cs ∧
      StandsFor ⟨0, wanted⟩ before after := by
  induction cs generalizing wanted with
  | nil =>
    refine ⟨[], [], rfl, ?_, standsFor_nil (.inr (by simp))⟩
    cases wanted <;> rfl
  | cons c cs ih =>
    cases wanted with
    | zero => exact ⟨[], c :: cs, rfl, rfl, standsFor_nil (.inl rfl)⟩
    | succ wanted =>
      by_cases hc : c = '\n'
      · refine ⟨[], c :: cs, rfl, ?_, standsFor_nil (.inr (by simp [hc]))⟩
        rw [columnOffset, if_pos hc]
        rfl
      · obtain ⟨before, after, rfl, hbytes, hstands⟩ := ih (wanted + 1 - units c)
        refine ⟨c :: before, after, rfl, ?_, ?_⟩
        · rw [columnOffset, if_neg hc, byteCount, hbytes]
        · have hzero : (endPosition before).line = 0 := hstands.line
          refine hstands.cons (.inr ⟨rfl, Nat.succ_pos _⟩) ?_ ?_ ?_
          · intro _
            rw [endPosition_cons hc, hzero]
          · intro a ha
            rw [Position.lt_def] at ha ⊢
            rw [endPosition_cons hc]
            dsimp only at ha ⊢
            split <;> omega
          · intro hle
            rw [Position.le_def] at hle ⊢
            rw [endPosition_cons hc]
            dsimp only at hle ⊢
            rw [if_pos hzero]
            omega

/-- What is found for a position is the place that it stands for. -/
theorem exists_standsFor {cs : List Char} {p : Position} {offset : Nat}
    (h : offsetAt cs p = some offset) :
    ∃ before after, cs = before ++ after ∧ byteCount before = offset ∧
      StandsFor p before after := by
  obtain ⟨line, character⟩ := p
  induction cs generalizing line offset with
  | nil =>
    cases line with
    | zero =>
      obtain rfl := Option.some.inj h
      exact exists_standsFor_columnOffset character []
    | succ line => simp [offsetAt] at h
  | cons c cs ih =>
    cases line with
    | zero =>
      obtain rfl := Option.some.inj h
      exact exists_standsFor_columnOffset character (c :: cs)
    | succ line =>
      obtain ⟨rest, hrest, rfl⟩ := Option.map_eq_some_iff.mp h
      obtain ⟨before, after, rfl, rfl, hstands⟩ := ih _ hrest
      refine ⟨c :: before, after, rfl, rfl, ?_⟩
      have hstart : (⟨0, 0⟩ : Position) < ⟨line + 1, character⟩ := .inl (Nat.succ_pos _)
      by_cases hc : c = '\n'
      · rw [if_pos hc] at hstands
        refine hstands.cons hstart (fun hline => ?_) (fun a ha => ?_) fun hle => ?_
        · rw [hc, endPosition_cons_newline, hline]
        · rw [Position.lt_def] at ha ⊢
          rw [hc, endPosition_cons_newline]
          dsimp only at ha ⊢
          omega
        · rw [Position.le_def] at hle ⊢
          rw [hc, endPosition_cons_newline]
          dsimp only at hle ⊢
          omega
      · rw [if_neg hc] at hstands
        refine hstands.cons hstart (fun hline => ?_) (fun a ha => ?_) fun hle => ?_
        · rw [endPosition_cons hc, hline]
        · rw [Position.lt_def] at ha ⊢
          rw [endPosition_cons hc]
          dsimp only at ha ⊢
          split <;> omega
        · rw [Position.le_def] at hle ⊢
          rw [endPosition_cons hc]
          dsimp only at hle ⊢
          split <;> omega

theorem offsetAt_eq_none_iff {cs : List Char} {p : Position} :
    offsetAt cs p = none ↔ cs.count '\n' < p.line := by
  obtain ⟨line, character⟩ := p
  induction cs generalizing line with
  | nil => cases line <;> simp [offsetAt]
  | cons c cs ih =>
    cases line with
    | zero => simp [offsetAt]
    | succ line =>
      rw [offsetAt, Option.map_eq_none_iff, ih]
      by_cases hc : c = '\n'
      · simp only [hc, if_true, List.count_cons_self]
        omega
      · simp only [hc, if_false, List.count_cons_of_ne hc]

/-! ## Places in the same order -/

theorem endPosition_lt_of_byteCount_lt {a a' b b' : List Char} (h : a ++ a' = b ++ b')
    (hlt : byteCount a < byteCount b) : endPosition a < endPosition b := by
  obtain ⟨m, rfl, -⟩ := exists_middle h (Nat.le_of_lt hlt)
  refine endPosition_lt_append a ?_
  rintro rfl
  rw [List.append_nil] at hlt
  omega

theorem endPosition_le_of_byteCount_le {a a' b b' : List Char} (h : a ++ a' = b ++ b')
    (hle : byteCount a ≤ byteCount b) : endPosition a ≤ endPosition b := by
  obtain ⟨m, rfl, -⟩ := exists_middle h hle
  exact endPosition_le_append a m

variable {p p' : Position} {before after before' after' a b : List Char}

/-- No place that is not before the position comes before the place that stands for it. -/
theorem StandsFor.byteCount_le (h : StandsFor p before after) (hcs : before ++ after = a ++ b)
    (hp : p ≤ endPosition a) : byteCount before ≤ byteCount a := by
  refine Nat.le_of_not_lt fun hlt => ?_
  obtain ⟨m, rfl, -⟩ := exists_middle hcs.symm (Nat.le_of_lt hlt)
  have hm : m ≠ [] := by
    rintro rfl
    simp at hlt
  have hbefore := h.isFirst a m rfl hm
  rw [Position.lt_def] at hbefore
  rw [Position.le_def] at hp
  omega

/-- Behind a place that stands for a position behind it there are only later lines. -/
theorem StandsFor.line_lt (h : StandsFor p before after) (hp : ¬ p ≤ endPosition before)
    (hcs : before ++ after = a ++ b) (hlt : byteCount before < byteCount a) :
    p.line < (endPosition a).line := by
  obtain ⟨m, rfl, rfl⟩ := exists_middle hcs (Nat.le_of_lt hlt)
  cases m with
  | nil => simp at hlt
  | cons c m =>
    have hc : c = '\n' := h.isLast.resolve_left hp c (by simp)
    rw [line_endPosition, List.count_append, ← line_endPosition before, h.line, hc,
      List.count_cons_self]
    omega

theorem StandsFor.mono (h : StandsFor p before after) (h' : StandsFor p' before' after')
    (hcs : before ++ after = before' ++ after') (hp : p ≤ p') :
    byteCount before ≤ byteCount before' := by
  by_cases hp' : p' ≤ endPosition before'
  · refine h.byteCount_le hcs ?_
    rw [Position.le_def] at hp hp' ⊢
    omega
  · refine Nat.le_of_not_lt fun hlt => ?_
    have hline := h'.line_lt hp' hcs.symm hlt
    rw [h.line] at hline
    rw [Position.le_def] at hp
    omega

end Text

/-! ## Conversions -/

namespace Buffer

open Text

variable {b : Buffer}

/-- The position is that of a place on the line. -/
def OnLine (b : Buffer) (line : Nat) (q : Position) : Prop :=
  q.line = line ∧ ∃ offset, b.positionAt offset = some q

theorem positionAt_eq_some_iff (h : HasShortLines b.text.toList) {offset : Nat} {q : Position} :
    b.positionAt offset = some q ↔ ∃ before after, b.text.toList = before ++ after ∧
      byteCount before = offset ∧ q = endPosition before := by
  constructor
  · exact eq_endPosition_of_positionAt
  · rintro ⟨before, after, htext, rfl, rfl⟩
    exact positionAt_eq_some htext (HasShortLines.fits (htext ▸ h))

/-- What is found for a position is the first place of its line with at least its column, or the
end of the line when there is none. -/
theorem positionAt_of_offsetAt (h : HasShortLines b.text.toList) {p : Position} {offset : Nat}
    (hp : b.offsetAt p = some offset) :
    ∃ q, b.positionAt offset = some q ∧ q.line = p.line ∧
      ((p.character ≤ q.character ∧
          ∀ r, b.OnLine p.line r → p.character ≤ r.character → q.character ≤ r.character) ∨
        ∀ r, b.OnLine p.line r → r.character < p.character ∧ r.character ≤ q.character) := by
  obtain ⟨before, after, htext, rfl, hstands⟩ := exists_standsFor hp
  refine ⟨endPosition before, (positionAt_eq_some_iff h).mpr ⟨before, after, htext, rfl, rfl⟩,
    hstands.line, ?_⟩
  have hline := hstands.line
  by_cases hreached : p ≤ endPosition before
  · left
    have hcolumn := hreached
    rw [Position.le_def] at hcolumn
    refine ⟨by omega, ?_⟩
    rintro r ⟨hr, o, ho⟩ hle
    obtain ⟨a, a', htext', rfl, rfl⟩ := (positionAt_eq_some_iff h).mp ho
    have hsame := htext.symm.trans htext'
    have horder := endPosition_le_of_byteCount_le hsame
      (hstands.byteCount_le hsame (.inr ⟨hr.symm, hle⟩))
    rw [Position.le_def] at horder
    omega
  · right
    rintro r ⟨hr, o, ho⟩
    obtain ⟨a, a', htext', rfl, rfl⟩ := (positionAt_eq_some_iff h).mp ho
    have hsame := htext.symm.trans htext'
    have hle : byteCount a ≤ byteCount before := by
      refine Nat.le_of_not_lt fun hlt => ?_
      have hlater := hstands.line_lt hreached hsame hlt
      omega
    have horder := endPosition_le_of_byteCount_le hsame.symm hle
    rw [Position.le_def] at hreached horder
    omega

/-- Between the halves of a character of two units is no place, so its end stands for it. -/
theorem offsetAt_between_units {c : Char} {before after : List Char}
    (htext : b.text.toList = before ++ c :: after) (hc : units c = 2) :
    b.offsetAt ⟨(endPosition before).line, (endPosition before).character + 1⟩ =
      some (byteCount (before ++ [c])) := by
  have hne : c ≠ '\n' := by
    rintro rfl
    simp [units] at hc
  rw [Buffer.offsetAt, htext, offsetAt_endPosition_add, columnOffset, if_neg hne, hc, columnOffset,
    byteCount_append]
  rfl

/-- Offsets and positions of places go together in the order of the text, and every position on
a line of the text stands for a place on that line. -/
theorem positions_of_hasShortLines (h : HasShortLines b.text.toList) :
    (∀ offset, (∃ q, b.positionAt offset = some q) ↔ IsBoundary b.text.toList offset) ∧
    (∀ m n p q, b.positionAt m = some p → b.positionAt n = some q → m < n → p < q) ∧
    (∀ offset q, b.positionAt offset = some q → b.offsetAt q = some offset) ∧
    (∀ p, b.offsetAt p = none ↔ b.text.toList.count '\n' < p.line) ∧
    (∀ p offset, b.offsetAt p = some offset → IsBoundary b.text.toList offset ∧
      ∃ q, b.positionAt offset = some q ∧ q.line = p.line ∧
        ((p.character ≤ q.character ∧
            ∀ r, b.OnLine p.line r → p.character ≤ r.character → q.character ≤ r.character) ∨
          ∀ r, b.OnLine p.line r → r.character < p.character ∧ r.character ≤ q.character)) ∧
    (∀ before c after, b.text.toList = before ++ c :: after → units c = 2 →
      b.offsetAt ⟨(endPosition before).line, (endPosition before).character + 1⟩ =
        some (byteCount (before ++ [c]))) ∧
    ∀ p q m n, p ≤ q → b.offsetAt p = some m → b.offsetAt q = some n → m ≤ n := by
  have hplace : ∀ {offset q}, b.positionAt offset = some q ↔ ∃ before after,
      b.text.toList = before ++ after ∧ byteCount before = offset ∧ q = endPosition before :=
    positionAt_eq_some_iff h
  refine ⟨?_, ?_, ?_, ?_, ?_, ?_, ?_⟩
  · intro offset
    constructor
    · rintro ⟨q, hq⟩
      obtain ⟨before, after, htext, hbytes, -⟩ := hplace.mp hq
      exact ⟨before, after, htext, hbytes⟩
    · rintro ⟨before, after, htext, hbytes⟩
      exact ⟨_, hplace.mpr ⟨before, after, htext, hbytes, rfl⟩⟩
  · intro m n p q hp hq hlt
    obtain ⟨a, a', htext, rfl, rfl⟩ := hplace.mp hp
    obtain ⟨c, c', htext', rfl, rfl⟩ := hplace.mp hq
    exact endPosition_lt_of_byteCount_lt (htext.symm.trans htext') hlt
  · intro offset q hq
    obtain ⟨before, after, htext, rfl, rfl⟩ := hplace.mp hq
    exact offsetAt_eq_some htext
  · intro p
    exact offsetAt_eq_none_iff
  · intro p offset hp
    obtain ⟨before, after, htext, hbytes, -⟩ := exists_standsFor hp
    exact ⟨⟨before, after, htext, hbytes⟩, positionAt_of_offsetAt h hp⟩
  · intro before c after htext hc
    exact offsetAt_between_units htext hc
  · intro p q m n hle hp hq
    obtain ⟨a, a', htext, rfl, hstands⟩ := exists_standsFor hp
    obtain ⟨c, c', htext', rfl, hstands'⟩ := exists_standsFor hq
    exact hstands.mono hstands' (htext.symm.trans htext') hle

/-- In `é😀x` and a second line, the column between the halves of the second character stands for
the place behind it. -/
theorem positions_of_hasShortLines_emoji :
    HasShortLines (⟨"é😀x\ny"⟩ : Buffer).text.toList ∧
    (∃ q, Buffer.positionAt ⟨"é😀x\ny"⟩ 6 = some q) ∧
    Buffer.offsetAt ⟨"é😀x\ny"⟩ ⟨0, 2⟩ = some 6 ∧
    Buffer.offsetAt ⟨"é😀x\ny"⟩ ⟨2, 0⟩ = none := by
  have hshort : HasShortLines (⟨"é😀x\ny"⟩ : Buffer).text.toList := by decide
  obtain ⟨hboundary, -, -, hnone, -, hbetween, -⟩ := positions_of_hasShortLines hshort
  exact ⟨hshort, (hboundary 6).mpr ⟨['é', '😀'], ['x', '\n', 'y'], by decide, by decide⟩,
    hbetween ['é'] '😀' ['x', '\n', 'y'] (by decide) (by decide),
    (hnone ⟨2, 0⟩).mpr (by decide)⟩

end Buffer

end LanguageHub
