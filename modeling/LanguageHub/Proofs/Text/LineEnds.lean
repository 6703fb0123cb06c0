import LanguageHub.Proofs.Text.Positions
import LanguageHub.Text.Buffer

/-!
# The line ends of the protocol

In the protocol a line ends at a line feed, at a carriage return and a line feed, or at a carriage
return alone. Here only line feeds end lines, so positions follow the protocol in just those texts
that have no carriage return.
-/

namespace LanguageHub

namespace Text

/-- A line of the protocol ends behind `c` when `after` follows: a carriage return before a line
feed is the first half of a line end. -/
def EndsLine (c : Char) (after : List Char) : Prop :=
  c = '\n' ∨ c = '\r' ∧ after.head? ≠ some '\n'

instance (c : Char) (after : List Char) : Decidable (EndsLine c after) :=
  inferInstanceAs (Decidable (_ ∨ _))

/-- The line ends of the protocol in a first part of a text, which `after` follows. -/
def lineEnds : List Char → List Char → Nat
  | [], _ => 0
  | c :: cs, after => (if EndsLine c (cs ++ after) then 1 else 0) + lineEnds cs after

/-- Between `before` and `after` stands a line of the protocol, without its line end. -/
structure IsLine (before line after : List Char) : Prop where
  starts : before = [] ∨ ∃ cs c, before = cs ++ [c] ∧ EndsLine c (line ++ after)
  plain : ∀ c ∈ line, c ≠ '\n' ∧ c ≠ '\r'
  ends : ∀ c ∈ after.head?, c = '\n' ∨ c = '\r'

theorem lineEnds_eq_count {cs : List Char} (h : '\r' ∉ cs) (after : List Char) :
    lineEnds cs after = cs.count '\n' := by
  induction cs with
  | nil => rfl
  | cons c cs ih =>
    rw [List.mem_cons, not_or] at h
    rw [lineEnds, ih h.2, List.count_cons]
    by_cases hc : c = '\n'
    · simp [EndsLine, hc, Nat.add_comm]
    · simp [EndsLine, hc, Ne.symm h.1]

/-- A text without line ends moves the column only. -/
theorem endPosition_append_plain {before line : List Char}
    (hstarts : before = [] ∨ ∃ cs, before = cs ++ ['\n']) (hline : '\n' ∉ line) :
    endPosition (before ++ line) = ⟨(endPosition before).line, unitCount line⟩ := by
  have hzero : (endPosition before).character = 0 := by
    rcases hstarts with rfl | ⟨cs, rfl⟩
    · rfl
    · simp [endPosition, advance]
  have hcolumns : endPosition line = ⟨0, unitCount line⟩ := by
    induction line with
    | nil => rfl
    | cons c cs ih =>
      rw [List.mem_cons, not_or] at hline
      rw [endPosition_cons (Ne.symm hline.1), ih hline.2]
      rfl
  rw [endPosition, List.foldl_append, foldl_advance, hcolumns]
  change (⟨(endPosition before).line + 0, (endPosition before).character + unitCount line⟩ :
    Position) = _
  rw [hzero, Nat.add_zero, Nat.zero_add]

/-- The last line of a text. -/
theorem exists_last_line (cs : List Char) : ∃ before line, cs = before ++ line ∧ '\n' ∉ line ∧
    (before = [] ∨ ∃ ds, before = ds ++ ['\n']) := by
  induction cs with
  | nil => exact ⟨[], [], rfl, by simp, .inl rfl⟩
  | cons c cs ih =>
    obtain ⟨before, line, rfl, hline, hbefore⟩ := ih
    rcases hbefore with rfl | ⟨ds, rfl⟩
    · by_cases hc : c = '\n'
      · exact ⟨[c], line, rfl, hline, .inr ⟨[], by simp [hc]⟩⟩
      · refine ⟨[], c :: line, rfl, ?_, .inl rfl⟩
        rw [List.mem_cons, not_or]
        exact ⟨Ne.symm hc, hline⟩
    · exact ⟨c :: (ds ++ ['\n']), line, rfl, hline, .inr ⟨c :: ds, rfl⟩⟩

theorem columnOffset_eq_zero {after : List Char} (h : ∀ c ∈ after.head?, c = '\n') (wanted : Nat) :
    columnOffset wanted after = 0 := by
  cases wanted with
  | zero => rw [columnOffset]
  | succ wanted =>
    cases after with
    | nil => rfl
    | cons c cs => rw [columnOffset, if_pos (h c rfl)]

end Text

namespace Buffer

open Text

/-- Offsets have the line numbers of the protocol, and a character past the end of a line stands
for the place before its line end. -/
structure FollowsProtocol (b : Buffer) : Prop where
  line : ∀ before after q, b.text.toList = before ++ after →
    b.positionAt (byteCount before) = some q → q.line = lineEnds before after
  clamp : ∀ before line after character, b.text.toList = before ++ line ++ after →
    IsLine before line after → unitCount line < character →
    b.offsetAt ⟨lineEnds before (line ++ after), character⟩ = some (byteCount (before ++ line))

variable {b : Buffer}

theorem not_mem_return_of_followsProtocol (h : b.FollowsProtocol) : '\r' ∉ b.text.toList := by
  intro hreturn
  obtain ⟨cs, after, htext, hcs⟩ := List.eq_append_cons_of_mem hreturn
  obtain ⟨before, line, rfl, hline, hbefore⟩ := exists_last_line cs
  rw [List.mem_append, not_or] at hcs
  have hisLine : IsLine before line ('\r' :: after) := by
    refine ⟨?_, ?_, by simp⟩
    · rcases hbefore with rfl | ⟨ds, rfl⟩
      · exact .inl rfl
      · exact .inr ⟨ds, '\n', rfl, .inl rfl⟩
    · intro c hc
      exact ⟨fun heq => hline (heq ▸ hc), fun heq => hcs.2 (heq ▸ hc)⟩
  -- One column past the line the carriage return is taken for a part of it.
  have hclamp := h.clamp before line ('\r' :: after) (unitCount line + 1) htext hisLine
    (Nat.lt_succ_self _)
  have hfound := offsetAt_endPosition_add (before ++ line) ('\r' :: after) 1
  have hcolumn : columnOffset 1 ('\r' :: after) = 1 := by
    rw [columnOffset, if_neg (by decide), show 0 + 1 - units '\r' = 0 from rfl, columnOffset]
    rfl
  rw [endPosition_append_plain hbefore hline, hcolumn, line_endPosition] at hfound
  rw [Buffer.offsetAt, htext, lineEnds_eq_count hcs.1, hfound] at hclamp
  exact absurd (Option.some.inj hclamp) (Nat.succ_ne_self _)

theorem followsProtocol_of_not_mem_return (h : '\r' ∉ b.text.toList) : b.FollowsProtocol where
  line before after q htext hq := by
    obtain ⟨a, a', htext', hbytes, rfl⟩ := eq_endPosition_of_positionAt hq
    obtain ⟨m, rfl, rfl⟩ := exists_middle (htext'.symm.trans htext) (Nat.le_of_eq hbytes)
    rw [byteCount_append] at hbytes
    obtain rfl : m = [] := eq_nil_of_byteCount_eq_zero (by omega)
    rw [htext', List.mem_append, not_or] at h
    rw [line_endPosition, List.append_nil, lineEnds_eq_count h.1]
  clamp before line after character htext hisLine hcharacter := by
    rw [htext, List.mem_append, List.mem_append, not_or, not_or] at h
    have hbefore : before = [] ∨ ∃ cs, before = cs ++ ['\n'] := by
      rcases hisLine.starts with hnil | ⟨cs, c, rfl, hends⟩
      · exact .inl hnil
      · rcases hends with rfl | ⟨rfl, -⟩
        · exact .inr ⟨cs, rfl⟩
        · simp at h
    have hafter : ∀ c ∈ after.head?, c = '\n' := by
      intro c hc
      refine (hisLine.ends c hc).resolve_right ?_
      rintro rfl
      exact h.2 (List.mem_of_mem_head? hc)
    have hline : '\n' ∉ line := fun hmem => (hisLine.plain '\n' hmem).1 rfl
    obtain ⟨k, rfl⟩ := Nat.exists_eq_add_of_le (Nat.le_of_lt hcharacter)
    have hfound := offsetAt_endPosition_add (before ++ line) after k
    rw [endPosition_append_plain hbefore hline, columnOffset_eq_zero hafter, line_endPosition]
      at hfound
    rw [Buffer.offsetAt, htext, lineEnds_eq_count h.1.1]
    exact hfound

/-- Positions follow the protocol in exactly the texts without a carriage return. -/
theorem followsProtocol_iff (b : Buffer) : b.FollowsProtocol ↔ '\r' ∉ b.text.toList :=
  ⟨not_mem_return_of_followsProtocol, followsProtocol_of_not_mem_return⟩

/-- An edit up to a column past the end of a line removes the first half of its line end, and a
lone carriage return starts no line. -/
theorem not_followsProtocol_of_return :
    ¬ (⟨"ab\r\ncd"⟩ : Buffer).FollowsProtocol ∧
    Buffer.applyAll ⟨"ab\r\ncd"⟩ [⟨⟨⟨0, 0⟩, ⟨0, 99⟩⟩, "x"⟩] = .ok "x\ncd" ∧
    ¬ (⟨"a\rb"⟩ : Buffer).FollowsProtocol := by
  refine ⟨?_, ?_, ?_⟩
  · intro h
    have hclamp := h.clamp [] ['a', 'b'] ['\r', '\n', 'c', 'd'] 99 rfl
      ⟨.inl rfl, by simp, by simp⟩ (by decide)
    have hfound : Buffer.offsetAt ⟨"ab\r\ncd"⟩ ⟨0, 99⟩ = some 3 := by decide
    rw [show lineEnds [] _ = 0 from rfl, hfound] at hclamp
    contradiction
  · have hspans : [⟨⟨⟨0, 0⟩, ⟨0, 99⟩⟩, "x"⟩].mapM (Span.ofTextEdit ⟨"ab\r\ncd"⟩) =
        .ok [⟨0, 3, "x"⟩] := rfl
    rw [Buffer.applyAll, hspans]
    change (Span.splice 0 _ ([⟨0, 3, "x"⟩].mergeSort Span.le)).map String.ofList = _
    rw [List.mergeSort_singleton]
    rfl
  · intro h
    have hline := h.line ['a', '\r'] ['b'] ⟨0, 2⟩ rfl (by decide)
    contradiction

end Buffer

end LanguageHub
