import LanguageHub.Text.Buffer
import LanguageHub.Text.Position

/-!
# What an edit does to a text

An edit can be made when the text has a part of the old length at its offset, between two
characters on both sides. The new text then stands in the place of that part.
-/

/-!
## Offsets and positions name the same places

A cut at byte `n` exists just where the text has a first part of `n` bytes. The position
after that part leads back to byte `n`, whatever follows it.
-/

namespace LanguageHub.Text

/-! ### Lengths -/

theorem byteCount_append (a b : List Char) : byteCount (a ++ b) = byteCount a + byteCount b := by
  induction a with
  | nil => simp [byteCount]
  | cons c cs ih => simp [byteCount, ih, Nat.add_assoc]

theorem unitCount_append (a b : List Char) : unitCount (a ++ b) = unitCount a + unitCount b := by
  induction a with
  | nil => simp [unitCount]
  | cons c cs ih => simp [unitCount, ih, Nat.add_assoc]

theorem units_pos (c : Char) : 0 < units c := by
  unfold units
  split <;> omega

/-! ### Cuts -/

theorem cut?_byteCount (a b : List Char) : cut? (byteCount a) (a ++ b) = some (a, b) := by
  induction a with
  | nil => cases b <;> rfl
  | cons c cs ih =>
    have hpos : 0 < c.utf8Size := Char.utf8Size_pos c
    obtain ⟨n, hn⟩ : ∃ n, c.utf8Size + byteCount cs = n + 1 :=
      Nat.exists_eq_succ_of_ne_zero (by omega)
    have hrest : n + 1 - c.utf8Size = byteCount cs := by omega
    simp only [byteCount, List.cons_append, hn, cut?]
    rw [if_pos (by omega), hrest, ih]
    rfl

theorem eq_append_of_cut? {n : Nat} {cs a b : List Char} (h : cut? n cs = some (a, b)) :
    cs = a ++ b ∧ byteCount a = n := by
  induction cs generalizing n a b with
  | nil =>
    cases n with
    | zero => simp_all [cut?, byteCount]
    | succ n => simp [cut?] at h
  | cons c cs ih =>
    cases n with
    | zero => simp_all [cut?, byteCount]
    | succ n =>
      simp only [cut?] at h
      split at h
      · obtain ⟨⟨a', b'⟩, hcut, heq⟩ := Option.map_eq_some_iff.mp h
        obtain ⟨rfl, hlen⟩ := ih hcut
        cases heq
        refine ⟨rfl, ?_⟩
        simp only [byteCount]
        omega
      · cases h

/-- A text can be cut exactly after each of its first parts. -/
theorem cut?_eq_some_iff {n : Nat} {cs a b : List Char} :
    cut? n cs = some (a, b) ↔ cs = a ++ b ∧ byteCount a = n := by
  constructor
  · exact eq_append_of_cut?
  · rintro ⟨rfl, rfl⟩
    exact cut?_byteCount a b

theorem slice?_eq_some_iff {offset length : Nat} {cs middle : List Char} :
    slice? offset length cs = some middle ↔
      ∃ before after, cs = before ++ middle ++ after ∧ byteCount before = offset ∧
        byteCount middle = length := by
  simp only [slice?, Option.bind_eq_bind, Option.bind_eq_some_iff, Prod.exists,
    cut?_eq_some_iff, Option.pure_def, Option.some.injEq]
  constructor
  · rintro ⟨before, rest, ⟨rfl, hbefore⟩, middle, after, ⟨rfl, hmiddle⟩, rfl⟩
    exact ⟨before, after, by simp, hbefore, hmiddle⟩
  · rintro ⟨before, after, rfl, hbefore, hmiddle⟩
    exact ⟨before, middle ++ after, ⟨by simp, hbefore⟩, middle, after, ⟨rfl, hmiddle⟩, rfl⟩

/-! ### Positions -/

theorem foldl_advance (p : Position) (cs : List Char) :
    cs.foldl advance p =
      ⟨p.line + (endPosition cs).line,
        if (endPosition cs).line = 0 then p.character + (endPosition cs).character
        else (endPosition cs).character⟩ := by
  induction cs generalizing p with
  | nil => simp [endPosition]
  | cons c cs ih =>
    have hend : endPosition (c :: cs) = cs.foldl advance (advance ⟨0, 0⟩ c) := rfl
    simp only [List.foldl_cons, hend, ih (advance p c), ih (advance ⟨0, 0⟩ c)]
    by_cases hc : c = '\n'
    · simp [advance, hc]
      omega
    · simp only [advance, hc, if_false]
      by_cases hline : (endPosition cs).line = 0
      · simp [hline, Nat.add_assoc]
      · simp [hline]

theorem endPosition_cons_newline (cs : List Char) :
    endPosition ('\n' :: cs) = ⟨(endPosition cs).line + 1, (endPosition cs).character⟩ := by
  rw [endPosition, List.foldl_cons, foldl_advance]
  simp [advance, Nat.add_comm]

theorem endPosition_cons {c : Char} (hc : c ≠ '\n') (cs : List Char) :
    endPosition (c :: cs) =
      ⟨(endPosition cs).line,
        if (endPosition cs).line = 0 then units c + (endPosition cs).character
        else (endPosition cs).character⟩ := by
  rw [endPosition, List.foldl_cons, foldl_advance]
  simp [advance, hc]

/-- From the position after a first part of a text, columns are counted in the rest. -/
theorem offsetAt_endPosition_add (a b : List Char) (k : Nat) :
    offsetAt (a ++ b) ⟨(endPosition a).line, (endPosition a).character + k⟩ =
      some (byteCount a + columnOffset k b) := by
  induction a with
  | nil => simp [endPosition, offsetAt, byteCount]
  | cons c cs ih =>
    by_cases hc : c = '\n'
    · subst hc
      rw [endPosition_cons_newline, List.cons_append, offsetAt, if_pos rfl, ih]
      simp [byteCount, Nat.add_assoc]
    · rw [endPosition_cons hc, List.cons_append]
      by_cases hline : (endPosition cs).line = 0
      · -- On the first line the column is found after the character's own units.
        obtain ⟨n, hn⟩ : ∃ n, units c + (endPosition cs).character + k = n + 1 :=
          Nat.exists_eq_succ_of_ne_zero (by have := units_pos c; omega)
        have hrest : n + 1 - units c = (endPosition cs).character + k := by omega
        rw [hline, offsetAt, Option.some.injEq] at ih
        simp only [hline, if_true, hn, offsetAt, columnOffset, hc, if_false, hrest, ih, byteCount,
          Nat.add_assoc]
      · obtain ⟨line, hsucc⟩ : ∃ line, (endPosition cs).line = line + 1 :=
          Nat.exists_eq_succ_of_ne_zero hline
        rw [if_neg hline]
        rw [hsucc] at ih ⊢
        rw [offsetAt, if_neg hc, ih]
        simp [byteCount, Nat.add_assoc]

/-- The position after a first part of a text is found again, after as many bytes. -/
theorem offsetAt_endPosition (a b : List Char) :
    offsetAt (a ++ b) (endPosition a) = some (byteCount a) := by
  have h := offsetAt_endPosition_add a b 0
  rwa [columnOffset, Nat.add_zero, Nat.add_zero] at h

/-- Lines and columns count UTF-16 units, so there are no more of them. -/
theorem endPosition_le (cs : List Char) :
    (endPosition cs).line + (endPosition cs).character ≤ unitCount cs := by
  induction cs with
  | nil => simp [endPosition]
  | cons c cs ih =>
    have hunits := units_pos c
    by_cases hc : c = '\n'
    · subst hc
      rw [endPosition_cons_newline]
      simp only [unitCount]
      omega
    · rw [endPosition_cons hc]
      simp only [unitCount]
      split <;> omega

theorem fits_endPosition {cs : List Char} (h : unitCount cs < UInt32.size) :
    Fits (endPosition cs) := by
  have hle := endPosition_le cs
  exact ⟨by omega, by omega⟩

end LanguageHub.Text

/-! ## What an edit does to a text -/

namespace LanguageHub

namespace Text

theorem eq_nil_of_byteCount_eq_zero {cs : List Char} (h : byteCount cs = 0) : cs = [] := by
  cases cs with
  | nil => rfl
  | cons c cs =>
    have hpos : 0 < c.utf8Size := Char.utf8Size_pos c
    simp only [byteCount] at h
    omega

/-- Of two first parts of a text, the one with fewer bytes starts the other. -/
theorem exists_middle {a a' b b' : List Char} (h : a ++ a' = b ++ b')
    (hle : byteCount a ≤ byteCount b) : ∃ middle, b = a ++ middle ∧ a' = middle ++ b' := by
  rcases List.append_eq_append_iff.mp h with ⟨m, rfl, rfl⟩ | ⟨m, rfl, rfl⟩
  · exact ⟨m, rfl, rfl⟩
  · rw [byteCount_append] at hle
    have hm : m = [] := eq_nil_of_byteCount_eq_zero (by omega)
    exact ⟨[], by simp [hm], by simp [hm]⟩

end Text

namespace Buffer

open Text

/-- The edit takes `removed` out of the text, between `before` and `after`. -/
def Removes (b : Buffer) (e : Edit) (before removed after : List Char) : Prop :=
  b.text.toList = before ++ removed ++ after ∧ byteCount before = e.offset ∧
    byteCount removed = e.oldLength

theorem Removes.apply {b : Buffer} {e : Edit} {before removed after : List Char}
    (h : b.Removes e before removed after) :
    b.apply e = .ok ⟨String.ofList (before ++ e.newText.toList ++ after)⟩ := by
  obtain ⟨htext, hbefore, hremoved⟩ := h
  have hstop : e.offset + e.oldLength = byteCount (before ++ removed) := by
    rw [byteCount_append]
    omega
  have hlength : ¬ b.byteLength < byteCount (before ++ removed) := by
    rw [byteLength, htext, byteCount_append (before ++ removed)]
    omega
  have hcut := cut?_byteCount before (removed ++ after)
  have hcut' := cut?_byteCount (before ++ removed) after
  rw [hbefore, ← List.append_assoc, ← htext] at hcut
  rw [← htext] at hcut'
  simp only [Buffer.apply, hstop, if_neg hlength, hcut, hcut']

theorem Removes.removed? {b : Buffer} {e : Edit} {before removed after : List Char}
    (h : b.Removes e before removed after) : b.removed? e = some removed :=
  slice?_eq_some_iff.mpr ⟨before, after, h⟩

theorem exists_removes_of_removed? {b : Buffer} {e : Edit} {removed : List Char}
    (h : b.removed? e = some removed) : ∃ before after, b.Removes e before removed after :=
  slice?_eq_some_iff.mp h

/-- An edit that can be made takes some part of the text out. -/
theorem exists_removes_of_apply {b b' : Buffer} {e : Edit} (h : b.apply e = .ok b') :
    ∃ before removed after, b.Removes e before removed after := by
  unfold Buffer.apply at h
  split at h
  · cases h
  · split at h
    case h_1 before rest upTo after hcut hcut' =>
      obtain ⟨htext, hbefore⟩ := cut?_eq_some_iff.mp hcut
      obtain ⟨htext', hupTo⟩ := cut?_eq_some_iff.mp hcut'
      obtain ⟨removed, rfl, -⟩ := exists_middle (htext.symm.trans htext') (by omega)
      rw [byteCount_append] at hupTo
      exact ⟨before, removed, after, htext', hbefore, by omega⟩
    case h_2 => cases h

/-- The text after an edit; the same text when the edit cannot be made. -/
def after (b : Buffer) (e : Edit) : Buffer :=
  match b.apply e with
  | .ok b' => b'
  | .error _ => b

theorem Removes.after {b : Buffer} {e : Edit} {before removed after : List Char}
    (h : b.Removes e before removed after) :
    b.after e = ⟨String.ofList (before ++ e.newText.toList ++ after)⟩ := by
  simp only [Buffer.after, h.apply]

theorem positionAt_eq_some {b : Buffer} {a c : List Char} (h : b.text.toList = a ++ c)
    (hfits : Fits (endPosition a)) : b.positionAt (byteCount a) = some (endPosition a) := by
  simp only [Buffer.positionAt, Text.positionAt, h, cut?_byteCount, Option.bind_eq_bind,
    Option.bind_some, if_pos hfits]

theorem offsetAt_eq_some {b : Buffer} {a c : List Char} (h : b.text.toList = a ++ c) :
    b.offsetAt (endPosition a) = some (byteCount a) := by
  rw [Buffer.offsetAt, h, offsetAt_endPosition]

theorem eq_endPosition_of_positionAt {b : Buffer} {n : Nat} {p : Position}
    (h : b.positionAt n = some p) :
    ∃ a c, b.text.toList = a ++ c ∧ byteCount a = n ∧ p = endPosition a := by
  simp only [Buffer.positionAt, Text.positionAt, Option.bind_eq_bind, Option.bind_eq_some_iff,
    Prod.exists, cut?_eq_some_iff] at h
  obtain ⟨a, c, ⟨htext, hlength⟩, h⟩ := h
  split at h
  · cases h
    exact ⟨a, c, htext, hlength, rfl⟩
  · cases h

end Buffer

end LanguageHub
