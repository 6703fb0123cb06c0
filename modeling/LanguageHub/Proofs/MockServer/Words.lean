import LanguageHub.MockServer.Basic
import LanguageHub.Proofs.Text.Positions
import LanguageHub.Proofs.Text.Splicing
import LanguageHub.Proofs.Wire.Framing

/-!
# The words of a text

The mock server finds the word around a byte by looking at the bytes on both sides of it, and then
cuts the word out of its line. A byte of a word has seven bits and so is a character of its own,
which is why a line can be cut on both sides of it, whatever else is in the line.

Laws: what the mock server takes for the word at a place is the whole run of bytes of words there;
the search for a word ends and finds its leftmost occurrences on every line.
-/

open LanguageHub.Frame (Bytes bytesOf)

namespace LanguageHub

/-! ## Bytes of characters -/

namespace Text

variable {cs : List Char} {c : Char} {i : Nat} {b : UInt8}

theorem length_bytesOf (cs : List Char) : (bytesOf cs).length = byteCount cs := by
  induction cs with
  | nil => rfl
  | cons c cs ih =>
    change (String.utf8EncodeChar c ++ bytesOf cs).length = _
    rw [List.length_append, String.length_utf8EncodeChar, ih]
    rfl

theorem bytesOf_injective {cs cs' : List Char} (h : bytesOf cs = bytesOf cs') : cs = cs' := by
  have htext := Frame.textOf?_bytesOf cs
  rw [h, Frame.textOf?_bytesOf] at htext
  exact (String.ofList_injective (Option.some.inj htext)).symm

/-- Characters of more than one byte have no bytes of seven bits. -/
theorem utf8EncodeChar_eq_of_mem (h : b ∈ String.utf8EncodeChar c) (hb : b.toNat < 128) :
    String.utf8EncodeChar c = [b] := by
  have hlarge : ∀ n, 128 ≤ n → n < 256 → b ≠ UInt8.ofNat n := by
    rintro n hlow hhigh rfl
    rw [UInt8.toNat_ofNat_of_lt' hhigh] at hb
    omega
  rw [String.utf8EncodeChar.eq_1] at h ⊢
  split at h
  · rw [List.mem_singleton.mp h, if_pos (by assumption)]
  split at h
  · simp only [List.mem_cons, List.not_mem_nil, or_false] at h
    rcases h with h | h <;> exact absurd h (hlarge _ (by omega) (by omega))
  split at h
  · simp only [List.mem_cons, List.not_mem_nil, or_false] at h
    rcases h with h | h | h <;> exact absurd h (hlarge _ (by omega) (by omega))
  · simp only [List.mem_cons, List.not_mem_nil, or_false] at h
    rcases h with h | h | h | h <;> exact absurd h (hlarge _ (by omega) (by omega))

/-- A byte of seven bits is a character of its own. -/
theorem exists_char_of_getElem? (h : (bytesOf cs)[i]? = some b) (hb : b.toNat < 128) :
    ∃ before c after, cs = before ++ c :: after ∧ byteCount before = i ∧ c.utf8Size = 1 := by
  induction cs generalizing i with
  | nil => cases h
  | cons c cs ih =>
    replace h : (String.utf8EncodeChar c ++ bytesOf cs)[i]? = some b := h
    have hsize := String.length_utf8EncodeChar c
    by_cases hfirst : i < (String.utf8EncodeChar c).length
    · rw [List.getElem?_append_left hfirst] at h
      rw [utf8EncodeChar_eq_of_mem (List.mem_of_getElem? h) hb] at hsize hfirst
      obtain rfl : i = 0 := Nat.lt_one_iff.mp hfirst
      exact ⟨[], c, cs, rfl, rfl, hsize.symm⟩
    · rw [List.getElem?_append_right (Nat.le_of_not_lt hfirst)] at h
      obtain ⟨before, c', after, rfl, hbefore, hc'⟩ := ih h
      refine ⟨c :: before, c', after, rfl, ?_, hc'⟩
      rw [byteCount, hbefore]
      omega

/-- A text can be cut before a byte of seven bits … -/
theorem isBoundary_of_getElem? (h : (bytesOf cs)[i]? = some b) (hb : b.toNat < 128) :
    IsBoundary cs i := by
  obtain ⟨before, c, after, rfl, hbefore, -⟩ := exists_char_of_getElem? h hb
  exact ⟨before, c :: after, rfl, hbefore⟩

/-- … and behind it. -/
theorem isBoundary_succ_of_getElem? (h : (bytesOf cs)[i]? = some b) (hb : b.toNat < 128) :
    IsBoundary cs (i + 1) := by
  obtain ⟨before, c, after, rfl, hbefore, hc⟩ := exists_char_of_getElem? h hb
  refine ⟨before ++ [c], after, by simp, ?_⟩
  rw [byteCount_append, hbefore, byteCount, hc]
  rfl

end Text

namespace MockText

open Text (IsBoundary byteCount length_bytesOf)

/-! ## Runs of bytes of words -/

/-- The bytes of words around a byte, up to the next byte on either side that is of no word. -/
structure IsRunAt (bytes : Bytes) (column : Nat) (run : Bytes) : Prop where
  word : ∀ b ∈ run, isWordByte b = true
  whole : ∃ before after, bytes = before ++ run ++ after ∧
    (∀ b ∈ before.getLast?, isWordByte b = false) ∧ (∀ b ∈ after.head?, isWordByte b = false) ∧
    before.length ≤ column ∧ column < before.length + run.length

/-- All bytes from `start` up to `stop` are of words. -/
def AllWord (bytes : Bytes) (start stop : Nat) : Prop :=
  ∀ i, start ≤ i → i < stop → ∃ b, bytes[i]? = some b ∧ isWordByte b = true

variable {bytes : Bytes} {column start stop i count : Nat} {b : UInt8}

theorem toNat_lt_of_isWordByte (h : isWordByte b = true) : b.toNat < 128 := by
  simp only [isWordByte, Bool.or_eq_true, Bool.and_eq_true, decide_eq_true_eq, beq_iff_eq,
    UInt8.le_iff_toNat_le] at h
  rcases h with ((h | h) | h) | rfl
  · exact Nat.lt_of_le_of_lt h.2 (by decide)
  · exact Nat.lt_of_le_of_lt h.2 (by decide)
  · exact Nat.lt_of_le_of_lt h.2 (by decide)
  · decide

theorem byteAt_eq_ok (h : bytes[i]? = some b) : byteAt bytes i = .ok b := by
  rw [byteAt, h]

theorem exists_getElem? (h : i < bytes.length) : ∃ b, bytes[i]? = some b :=
  ⟨_, List.getElem?_eq_getElem h⟩

theorem allWord_of_le (h : stop ≤ start) : AllWord bytes start stop := by
  intro i hle hlt
  omega

theorem AllWord.cons (h : AllWord bytes (start + 1) stop) (hbyte : bytes[start]? = some b)
    (hb : isWordByte b = true) : AllWord bytes start stop := by
  intro i hle hlt
  by_cases hfirst : i = start
  · exact ⟨b, hfirst ▸ hbyte, hb⟩
  · exact h i (by omega) hlt

theorem AllWord.concat (h : AllWord bytes start stop) (hbyte : bytes[stop]? = some b)
    (hb : isWordByte b = true) : AllWord bytes start (stop + 1) := by
  intro i hle hlt
  by_cases hlast : i = stop
  · exact ⟨b, hlast ▸ hbyte, hb⟩
  · exact h i hle (by omega)

theorem AllWord.append {middle : Nat} (h : AllWord bytes start middle)
    (h' : AllWord bytes column stop) (hle : column ≤ middle) : AllWord bytes start stop := by
  intro i hi hlt
  by_cases hside : i < middle
  · exact h i hi hside
  · exact h' i (by omega) hlt

/-! ### The way back -/

theorem wordStart_succ_of_word (h : bytes[i + 1]? = some b) (hb : isWordByte b = true) :
    wordStart bytes (i + 1) = wordStart bytes i := by
  rw [wordStart, byteAt_eq_ok h]
  exact if_pos hb

theorem wordStart_of_not_word (h : bytes[i]? = some b) (hb : isWordByte b = false) :
    wordStart bytes i = .ok (i + 1) := by
  cases i <;>
    · rw [wordStart, byteAt_eq_ok h]
      exact if_neg (by simp [hb])

theorem wordStart_zero_of_word (h : bytes[0]? = some b) (hb : isWordByte b = true) :
    wordStart bytes 0 = .ok 0 := by
  rw [wordStart, byteAt_eq_ok h]
  exact if_pos hb

/-- The way back from byte `i` ends behind the last byte that is of no word. -/
theorem exists_wordStart (h : i < bytes.length) :
    ∃ start, wordStart bytes i = .ok start ∧ start ≤ i + 1 ∧ AllWord bytes start (i + 1) ∧
      ∀ before, start = before + 1 → ∃ b, bytes[before]? = some b ∧ isWordByte b = false := by
  induction i with
  | zero =>
    obtain ⟨b, hbyte⟩ := exists_getElem? h
    cases hb : isWordByte b with
    | true =>
      exact ⟨0, wordStart_zero_of_word hbyte hb, Nat.zero_le 1,
        (allWord_of_le (Nat.le_refl 0)).concat hbyte hb, nofun⟩
    | false =>
      refine ⟨1, wordStart_of_not_word hbyte hb, Nat.le_refl 1, allWord_of_le (Nat.le_refl 1), ?_⟩
      intro before hbefore
      exact ⟨b, Nat.succ.inj hbefore ▸ hbyte, hb⟩
  | succ i ih =>
    obtain ⟨b, hbyte⟩ := exists_getElem? h
    cases hb : isWordByte b with
    | true =>
      obtain ⟨start, hstart, hle, hall, hbefore⟩ := ih (Nat.lt_of_succ_lt h)
      exact ⟨start, (wordStart_succ_of_word hbyte hb).trans hstart, Nat.le_succ_of_le hle,
        hall.concat hbyte hb, hbefore⟩
    | false =>
      refine ⟨i + 2, wordStart_of_not_word hbyte hb, Nat.le_refl _,
        allWord_of_le (Nat.le_refl _), ?_⟩
      intro before hbefore
      exact ⟨b, Nat.succ.inj hbefore ▸ hbyte, hb⟩

/-! ### The way on -/

theorem wordStop_of_word (h : bytes[i]? = some b) (hb : isWordByte b = true) :
    wordStop bytes (count + 1) i = wordStop bytes count (i + 1) := by
  rw [wordStop, byteAt_eq_ok h]
  exact if_pos hb

theorem wordStop_of_not_word (h : bytes[i]? = some b) (hb : isWordByte b = false) :
    wordStop bytes (count + 1) i = .ok i := by
  rw [wordStop, byteAt_eq_ok h]
  exact if_neg (by simp [hb])

/-- The way on from byte `i` ends at the first byte that is of no word. -/
theorem exists_wordStop (h : i + count = bytes.length) :
    ∃ stop, wordStop bytes count i = .ok stop ∧ i ≤ stop ∧ stop ≤ bytes.length ∧
      AllWord bytes i stop ∧ ∀ b, bytes[stop]? = some b → isWordByte b = false := by
  induction count generalizing i with
  | zero =>
    refine ⟨i, rfl, Nat.le_refl i, Nat.le_of_eq h, allWord_of_le (Nat.le_refl i), ?_⟩
    intro b hbyte
    have hend : bytes.length ≤ i := Nat.le_of_eq h.symm
    rw [List.getElem?_eq_none hend] at hbyte
    cases hbyte
  | succ count ih =>
    obtain ⟨b, hbyte⟩ : ∃ b, bytes[i]? = some b := exists_getElem? (by omega)
    cases hb : isWordByte b with
    | true =>
      obtain ⟨stop, hstop, hle, hend, hall, hafter⟩ := ih (i := i + 1) (by omega)
      exact ⟨stop, (wordStop_of_word hbyte hb).trans hstop, Nat.le_of_succ_le hle, hend,
        hall.cons hbyte hb, hafter⟩
    | false =>
      refine ⟨i, wordStop_of_not_word hbyte hb, Nat.le_refl i, by omega,
        allWord_of_le (Nat.le_refl i), ?_⟩
      intro b' hbyte'
      exact Option.some.inj (hbyte.symm.trans hbyte') ▸ hb

/-! ### The whole run -/

theorem isRunAt_of_allWord (hall : AllWord bytes start stop)
    (hbefore : ∀ before, start = before + 1 → ∃ b, bytes[before]? = some b ∧ isWordByte b = false)
    (hafter : ∀ b, bytes[stop]? = some b → isWordByte b = false) (hstart : start ≤ column)
    (hstop : column < stop) (hend : stop ≤ bytes.length) :
    IsRunAt bytes column ((bytes.drop start).take (stop - start)) := by
  constructor
  · intro b hb
    obtain ⟨i, hi⟩ := List.mem_iff_getElem?.mp hb
    rw [List.getElem?_take, List.getElem?_drop] at hi
    split at hi
    · obtain ⟨b', hb', hword⟩ := hall (start + i) (by omega) (by omega)
      rw [hi] at hb'
      exact Option.some.inj hb' ▸ hword
    · cases hi
  · refine ⟨bytes.take start, bytes.drop stop, ?_, ?_, ?_, ?_, ?_⟩
    · have hrest : bytes.drop stop = (bytes.drop start).drop (stop - start) := by
        rw [List.drop_drop]
        congr 1
        omega
      rw [hrest, List.append_assoc, List.take_append_drop, List.take_append_drop]
    · intro b hb
      rw [List.getLast?_take] at hb
      split at hb
      · cases hb
      · obtain ⟨b', hb', hword⟩ := hbefore (start - 1) (by omega)
        rw [hb'] at hb
        exact Option.some.inj hb ▸ hword
    · intro b hb
      rw [List.head?_drop] at hb
      exact hafter b hb
    · rw [List.length_take]
      omega
    · rw [List.length_take, List.length_take, List.length_drop]
      omega

/-- Where a run begins nothing of a word is before it, so no run begins inside another one. -/
theorem IsRunAt.length_before_le {run run' before before' after after' : Bytes}
    (hword : ∀ b ∈ run, isWordByte b = true) (hwhole : bytes = before ++ run ++ after)
    (hwhole' : bytes = before' ++ run' ++ after')
    (hfirst' : ∀ b ∈ before'.getLast?, isWordByte b = false)
    (hstart' : before'.length ≤ column) (hstop : column < before.length + run.length) :
    before'.length ≤ before.length := by
  by_contra hlt
  obtain ⟨b, hb⟩ : ∃ b, before'.getLast? = some b :=
    ⟨_, List.getLast?_eq_getLast_of_ne_nil (List.ne_nil_of_length_pos (by omega))⟩
  have hlast : bytes[before'.length - 1]? = some b := by
    rw [hwhole', List.append_assoc, List.getElem?_append_left (by omega),
      ← List.getLast?_eq_getElem?, hb]
  rw [hwhole, List.append_assoc, List.getElem?_append_right (by omega),
    List.getElem?_append_left (by omega)] at hlast
  have hcontra := hfirst' b hb
  rw [hword b (List.mem_of_getElem? hlast)] at hcontra
  cases hcontra

theorem IsRunAt.unique {run run' : Bytes} (h : IsRunAt bytes column run)
    (h' : IsRunAt bytes column run') : run = run' := by
  obtain ⟨hword, before, after, hwhole, hbefore, hafter, hstart, hstop⟩ := h
  obtain ⟨hword', before', after', hwhole', hbefore', hafter', hstart', hstop'⟩ := h'
  have hlength : before.length = before'.length :=
    Nat.le_antisymm (length_before_le hword' hwhole' hwhole hbefore hstart hstop')
      (length_before_le hword hwhole hwhole' hbefore' hstart' hstop)
  have hboth := hwhole.symm.trans hwhole'
  rw [List.append_assoc, List.append_assoc] at hboth
  obtain ⟨-, hrest⟩ := List.append_inj hboth hlength
  rw [← (span_append hword hafter).1, hrest, (span_append hword' hafter').1]

/-- What a run covers are bytes of words. -/
theorem IsRunAt.exists_byte {run : Bytes} (h : IsRunAt bytes column run) :
    ∃ b, bytes[column]? = some b ∧ isWordByte b = true := by
  obtain ⟨hword, before, after, rfl, -, -, hstart, hstop⟩ := h
  obtain ⟨b, hb⟩ : ∃ b, run[column - before.length]? = some b := exists_getElem? (by omega)
  refine ⟨b, ?_, hword b (List.mem_of_getElem? hb)⟩
  rw [List.append_assoc, List.getElem?_append_right hstart,
    List.getElem?_append_left (by omega), hb]

theorem IsRunAt.length_pos {run : Bytes} (h : IsRunAt bytes column run) : 0 < run.length := by
  obtain ⟨-, before, after, -, -, -, hstart, hstop⟩ := h
  omega

/-! ## The word at a place -/

variable {text line word : List Char}

/-- Between two places between characters a line can be cut. -/
theorem exists_cutOut (hstart : IsBoundary line start) (hstop : IsBoundary line stop)
    (hle : start ≤ stop) : ∃ part, cutOut line start stop = .ok part ∧
      bytesOf part = ((bytesOf line).drop start).take (stop - start) := by
  obtain ⟨before, rest, hline, rfl⟩ := hstart
  obtain ⟨before', after, hline', rfl⟩ := hstop
  obtain ⟨part, rfl, rfl⟩ := Text.exists_middle (hline.symm.trans hline') hle
  have hlength : byteCount (before ++ part) - byteCount before = byteCount part := by
    rw [Text.byteCount_append, Nat.add_sub_cancel_left]
  refine ⟨part, ?_, ?_⟩
  · rw [cutOut, if_pos hle, hlength, Text.slice?_eq_some_iff.mpr ⟨before, after, hline', rfl, rfl⟩]
  · rw [hline, hlength, Frame.bytesOf_append, Frame.bytesOf_append, ← length_bytesOf before,
      ← length_bytesOf part, List.drop_left, List.take_left]

/-- The line is not there, or it ends before the column, or the byte there is of no word. -/
inductive IsBare (text : List Char) (line column : Nat) : Prop
  | noLine (h : (Text.lines text)[line]? = none)
  | noByte {chars : List Char} (h : (Text.lines text)[line]? = some chars)
      (hend : (bytesOf chars).length ≤ column)
  | noWord {chars : List Char} {b : UInt8} (h : (Text.lines text)[line]? = some chars)
      (hbyte : (bytesOf chars)[column]? = some b) (hb : isWordByte b = false)

/-- The word is all the bytes of words around a byte of the line. -/
def IsWordAt (text : List Char) (line column : Nat) (word : List Char) : Prop :=
  ∃ chars, (Text.lines text)[line]? = some chars ∧ IsRunAt (bytesOf chars) column (bytesOf word)

theorem exists_wordIn (hbyte : (bytesOf line)[column]? = some b) (hb : isWordByte b = true) :
    ∃ word, wordIn line column = .ok (some word) ∧
      IsRunAt (bytesOf line) column (bytesOf word) := by
  have hcolumn : column < (bytesOf line).length := (List.getElem?_eq_some_iff.mp hbyte).1
  obtain ⟨start, hstart, hle, hback, hbefore⟩ := exists_wordStart hcolumn
  obtain ⟨stop, hstop, hle', hend, hon, hafter⟩ :=
    exists_wordStop (Nat.add_sub_of_le (Nat.le_of_lt hcolumn))
  have hfirst : start ≤ column := by
    by_contra hgt
    obtain ⟨b', hb', hnone⟩ := hbefore column (by omega)
    rw [hbyte] at hb'
    rw [← Option.some.inj hb', hb] at hnone
    cases hnone
  have hlast : column < stop := by
    by_contra hge
    have hnone := hafter b (by rwa [show stop = column by omega])
    rw [hb] at hnone
    cases hnone
  -- At both ends of the run there is a byte of seven bits, so the line can be cut there.
  have hstartCut : IsBoundary line start := by
    obtain ⟨b', hb', hword⟩ := hback start (Nat.le_refl start) (by omega)
    exact Text.isBoundary_of_getElem? hb' (toNat_lt_of_isWordByte hword)
  have hstopCut : IsBoundary line stop := by
    obtain ⟨b', hb', hword⟩ := hon (stop - 1) (by omega) (by omega)
    have hcut := Text.isBoundary_succ_of_getElem? hb' (toNat_lt_of_isWordByte hword)
    rwa [Nat.sub_add_cancel (by omega)] at hcut
  obtain ⟨word, hcut, hbytes⟩ := exists_cutOut hstartCut hstopCut (by omega)
  have hall := hback.append hon (Nat.le_succ column)
  refine ⟨word, ?_, hbytes ▸ isRunAt_of_allWord hall hbefore hafter hfirst hlast hend⟩
  simp only [wordIn, if_neg (Nat.not_le_of_lt hcolumn), hstart, hstop, bind, Except.bind,
    if_neg (show ¬ stop ≤ start by omega), hcut]
  rfl

theorem wordIn_of_not_isWordByte (hbyte : (bytesOf line)[column]? = some b)
    (hb : isWordByte b = false) : wordIn line column = .ok none := by
  have hcolumn : column < (bytesOf line).length := (List.getElem?_eq_some_iff.mp hbyte).1
  obtain ⟨start, hstart, hle, hback, -⟩ := exists_wordStart hcolumn
  obtain ⟨stop, hstop, hle', -, hon, -⟩ :=
    exists_wordStop (Nat.add_sub_of_le (Nat.le_of_lt hcolumn))
  have hnone : ¬ ∃ b', (bytesOf line)[column]? = some b' ∧ isWordByte b' = true := by
    rintro ⟨b', hb', hword⟩
    rw [hbyte] at hb'
    rw [← Option.some.inj hb', hb] at hword
    cases hword
  have hempty : stop ≤ start := by
    by_contra hlt
    by_cases hfirst : start ≤ column
    · exact hnone (hback column hfirst (by omega))
    · exact hnone (hon column (Nat.le_refl column) (by omega))
  simp only [wordIn, if_neg (Nat.not_le_of_lt hcolumn), hstart, hstop, bind, Except.bind,
    if_pos hempty]
  rfl

theorem extractWord_eq (text : List Char) (line column : Nat) :
    (∃ word, extractWord text line column = .ok (some word) ∧ IsWordAt text line column word) ∨
      extractWord text line column = .ok none ∧ IsBare text line column := by
  unfold extractWord
  cases hline : (Text.lines text)[line]? with
  | none => exact .inr ⟨rfl, .noLine hline⟩
  | some chars =>
    dsimp only
    cases hbyte : (bytesOf chars)[column]? with
    | none =>
      have hend := List.getElem?_eq_none_iff.mp hbyte
      exact .inr ⟨by rw [wordIn, if_pos hend]; rfl, .noByte hline hend⟩
    | some b =>
      cases hb : isWordByte b with
      | false => exact .inr ⟨wordIn_of_not_isWordByte hbyte hb, .noWord hline hbyte hb⟩
      | true =>
        obtain ⟨word, hword, hrun⟩ := exists_wordIn hbyte hb
        exact .inl ⟨word, hword, chars, hline, hrun⟩

theorem IsBare.not_isWordAt {line : Nat} (h : IsBare text line column) :
    ¬ IsWordAt text line column word := by
  rintro ⟨chars, hline, hrun⟩
  obtain ⟨b, hbyte, hword⟩ := hrun.exists_byte
  cases h with
  | noLine h =>
    rw [hline] at h
    cases h
  | noByte h hend =>
    obtain rfl := Option.some.inj (hline.symm.trans h)
    exact Nat.not_lt_of_le hend (List.getElem?_eq_some_iff.mp hbyte).1
  | noWord h hbyte' hb =>
    obtain rfl := Option.some.inj (hline.symm.trans h)
    rw [Option.some.inj (hbyte.symm.trans hbyte'), hb] at hword
    cases hword

theorem IsWordAt.unique {line : Nat} {word' : List Char} (h : IsWordAt text line column word)
    (h' : IsWordAt text line column word') : word = word' := by
  obtain ⟨chars, hline, hrun⟩ := h
  obtain ⟨chars', hline', hrun'⟩ := h'
  obtain rfl := Option.some.inj (hline.symm.trans hline')
  exact Text.bytesOf_injective (hrun.unique hrun')

theorem extractWord_eq_some_iff {line : Nat} :
    extractWord text line column = .ok (some word) ↔ IsWordAt text line column word := by
  rcases extractWord_eq text line column with ⟨word', hword', hat'⟩ | ⟨hnone, hbare⟩
  · rw [hword', Except.ok.injEq, Option.some.injEq]
    exact ⟨fun h => h ▸ hat', hat'.unique⟩
  · rw [hnone]
    exact ⟨nofun, fun h => absurd h hbare.not_isWordAt⟩

theorem extractWord_eq_none_iff {line : Nat} :
    extractWord text line column = .ok none ↔ IsBare text line column := by
  rcases extractWord_eq text line column with ⟨word, hword, hat⟩ | ⟨hnone, hbare⟩
  · rw [hword]
    exact ⟨nofun, fun h => absurd hat h.not_isWordAt⟩
  · exact iff_of_true hnone hbare

/-! ## The search for a word -/

/-- The pattern is in the bytes at a column. -/
def OccursAt (pattern bytes : Bytes) (column : Nat) : Prop := pattern <+: bytes.drop column

/-- From `start` on, the first column where the pattern occurs, the first one behind that
occurrence, and so on. -/
inductive Leftmost (pattern bytes : Bytes) : Nat → List Nat → Prop
  | done {start : Nat} (h : ∀ column, start ≤ column → ¬ OccursAt pattern bytes column) :
      Leftmost pattern bytes start []
  | found {start column : Nat} {columns : List Nat} (hle : start ≤ column)
      (h : OccursAt pattern bytes column)
      (hfirst : ∀ c, start ≤ c → c < column → ¬ OccursAt pattern bytes c)
      (hrest : Leftmost pattern bytes (column + pattern.length) columns) :
      Leftmost pattern bytes start (column :: columns)

/-- The leftmost occurrences of the word on every line of the text, line after line. -/
def AreOccurrences (text word : List Char) (found : List (Nat × Nat × Nat)) : Prop :=
  ∃ columns : List Char → List Nat,
    (∀ line ∈ Text.lines text, Leftmost (bytesOf word) (bytesOf line) 0 (columns line)) ∧
      found = (Text.lines text).zipIdx.flatMap fun (line, i) =>
        (columns line).map fun column => (i, column, column + (bytesOf word).length)

variable {pattern : Bytes} {n : Nat}

theorem occursAt_drop :
    OccursAt pattern (bytes.drop start) n ↔ OccursAt pattern bytes (start + n) := by
  rw [OccursAt, OccursAt, List.drop_drop]

theorem find?_spec (pattern bytes : Bytes) :
    (∃ n, find? pattern bytes = some n ∧ OccursAt pattern bytes n ∧
      ∀ m < n, ¬ OccursAt pattern bytes m) ∨
      find? pattern bytes = none ∧ ∀ m, ¬ OccursAt pattern bytes m := by
  induction bytes with
  | nil =>
    cases pattern with
    | nil => exact .inl ⟨0, rfl, List.prefix_rfl, nofun⟩
    | cons b pattern =>
      refine .inr ⟨rfl, fun m h => ?_⟩
      rw [OccursAt, List.drop_nil, List.prefix_nil] at h
      cases h
  | cons b rest ih =>
    rw [find?]
    by_cases hfirst : pattern.isPrefixOf (b :: rest) = true
    · exact .inl ⟨0, if_pos hfirst, List.isPrefixOf_iff_prefix.mp hfirst, nofun⟩
    rw [if_neg hfirst]
    have hzero : ¬ OccursAt pattern (b :: rest) 0 :=
      fun h => hfirst (List.isPrefixOf_iff_prefix.mpr h)
    rcases ih with ⟨n, hn, hoccurs, hbefore⟩ | ⟨hnone, hnowhere⟩
    · refine .inl ⟨n + 1, by rw [hn]; rfl, hoccurs, fun m hm => ?_⟩
      cases m with
      | zero => exact hzero
      | succ m => exact hbefore m (by omega)
    · refine .inr ⟨by rw [hnone]; rfl, fun m => ?_⟩
      cases m with
      | zero => exact hzero
      | succ m => exact hnowhere m

/-- Behind an occurrence of a word the line can be cut. -/
theorem isBoundary_of_occursAt (hword : ∀ b ∈ bytesOf word, isWordByte b = true)
    (hpos : 0 < (bytesOf word).length) (h : OccursAt (bytesOf word) (bytesOf line) column) :
    IsBoundary line (column + (bytesOf word).length) := by
  obtain ⟨rest, hrest⟩ := h
  obtain ⟨b, hb⟩ : ∃ b, (bytesOf word)[(bytesOf word).length - 1]? = some b :=
    exists_getElem? (by omega)
  have hbyte : (bytesOf line)[column + ((bytesOf word).length - 1)]? = some b := by
    rw [← List.getElem?_drop, ← hrest, List.getElem?_append_left (by omega), hb]
  have hcut := Text.isBoundary_succ_of_getElem? hbyte
    (toNat_lt_of_isWordByte (hword b (List.mem_of_getElem? hb)))
  rwa [Nat.add_assoc, Nat.sub_add_cancel hpos] at hcut

/-- From every place where the line can be cut, the search ends with the leftmost occurrences. -/
theorem exists_occurrencesFrom (hword : ∀ b ∈ bytesOf word, isWordByte b = true)
    (hpos : 0 < (bytesOf word).length) (hstart : IsBoundary line start) :
    ∃ columns, occurrencesFrom word line start = .ok columns ∧
      Leftmost (bytesOf word) (bytesOf line) start columns := by
  induction hleft : (bytesOf line).length + 1 - start using Nat.strongRecOn generalizing start with
  | ind left ih =>
    have hend : start ≤ byteCount line := by
      obtain ⟨before, after, rfl, rfl⟩ := hstart
      rw [Text.byteCount_append]
      omega
    obtain ⟨rest, hcut, hrest⟩ := exists_cutOut hstart (Text.isBoundary_byteCount line) hend
    rw [← length_bytesOf, ← List.length_drop, List.take_length] at hrest
    unfold occurrencesFrom
    split
    · rename_i hfault
      rw [hcut] at hfault
      cases hfault
    rename_i rest' hcut'
    obtain rfl := Except.ok.inj (hcut.symm.trans hcut')
    rw [hrest, ← length_bytesOf word]
    rcases find?_spec (bytesOf word) ((bytesOf line).drop start) with
      ⟨skipped, hskipped, hoccurs, hbefore⟩ | ⟨hnone, hnowhere⟩
    · rw [occursAt_drop] at hoccurs
      obtain ⟨columns, hcolumns, hleftmost⟩ := ih _ (by rw [length_bytesOf] at hleft ⊢; omega)
        (isBoundary_of_occursAt hword hpos hoccurs) rfl
      refine ⟨(start + skipped) :: columns, ?_, ?_⟩
      · simp only [hskipped, if_pos (show start < start + skipped + (bytesOf word).length by omega),
          hcolumns]
        rfl
      · refine .found (Nat.le_add_right start skipped) hoccurs (fun c hle hlt => ?_) hleftmost
        have hnot := hbefore (c - start) (by omega)
        rwa [occursAt_drop, Nat.add_sub_of_le hle] at hnot
    · refine ⟨[], by simp only [hnone], .done fun c hle => ?_⟩
      have hnot := hnowhere (c - start)
      rwa [occursAt_drop, Nat.add_sub_of_le hle] at hnot

theorem exists_occurrences (hword : ∀ b ∈ bytesOf word, isWordByte b = true)
    (hpos : 0 < (bytesOf word).length) (text : List Char) :
    ∃ found, occurrences text word = .ok found ∧ AreOccurrences text word found := by
  have hline (line : List Char) := exists_occurrencesFrom hword hpos (Text.isBoundary_zero line)
  choose columns hcolumns hleftmost using hline
  refine ⟨_, ?_, columns, fun line _ => hleftmost line, rfl⟩
  rw [List.flatMap_def, occurrences, mapM_eq_ok (g := fun (line, i) => (columns line).map
    fun column => (i, column, column + (bytesOf word).length))]
  · rfl
  · rintro ⟨line, i⟩ -
    simp only [hcolumns, ← length_bytesOf word]
    rfl

end MockText

namespace MockServer

open MockText (IsBare IsWordAt AreOccurrences extractWord)

/-- Where the word that the parameters point at occurs in its document; nowhere, if the server does
not have the document or there is no word. -/
inductive FindsAt (s : MockServer) (params : Json) : List (Nat × Nat × Nat) → Prop
  | nothing (h : ∀ text line column word, s.document? (documentUri params) = some text →
      place? params = some (line, column) → ¬ IsWordAt text line column word) : FindsAt s params []
  | word {text word : List Char} {line column : Nat} {found : List (Nat × Nat × Nat)}
      (hdocument : s.document? (documentUri params) = some text)
      (hplace : place? params = some (line, column)) (hword : IsWordAt text line column word)
      (hfound : AreOccurrences text word found) : FindsAt s params found

theorem exists_wordAt (s : MockServer) (params : Json) : ∃ word?, s.wordAt params = .ok word? := by
  unfold wordAt
  split
  · rcases MockText.extractWord_eq _ _ _ with ⟨word, hword, -⟩ | ⟨hnone, -⟩
    · exact ⟨_, hword⟩
    · exact ⟨_, hnone⟩
  · exact ⟨none, rfl⟩

theorem exists_occurrencesAt (s : MockServer) (params : Json) :
    ∃ found, s.occurrencesAt params = .ok found ∧ s.FindsAt params found := by
  unfold occurrencesAt wordAt
  cases hdocument : s.document? (documentUri params) with
  | none =>
    refine ⟨[], rfl, .nothing fun text line column word htext => ?_⟩
    rw [hdocument] at htext
    cases htext
  | some text =>
    cases hplace : place? params with
    | none =>
      refine ⟨[], rfl, .nothing fun text line column word _ hplace' => ?_⟩
      rw [hplace] at hplace'
      cases hplace'
    | some place =>
      obtain ⟨line, column⟩ := place
      dsimp only
      rcases MockText.extractWord_eq text line column with ⟨word, hword, hat⟩ | ⟨hnone, hbare⟩
      · obtain ⟨chars, -, hrun⟩ := id hat
        obtain ⟨found, hfound, hare⟩ :=
          MockText.exists_occurrences hrun.word hrun.length_pos text
        rw [hword]
        exact ⟨found, hfound, .word hdocument hplace hat hare⟩
      · rw [hnone]
        refine ⟨[], rfl, .nothing fun text' line' column' word htext hplace' hat => ?_⟩
        obtain rfl := Option.some.inj (hdocument.symm.trans htext)
        obtain ⟨rfl, rfl⟩ := Prod.mk.inj (Option.some.inj (hplace.symm.trans hplace'))
        exact hbare.not_isWordAt hat

/-- At any line and column of any text, with characters of any size, the word there is found without
a look past the end of the line or a cut inside a character: all the bytes of words around the
column, or nothing exactly where the line or the column is not there or its byte is of no word. The
search for that word ends, again without such a cut, with its leftmost occurrences on every line. -/
theorem words_exact (text : List Char) (line column : Nat) :
    (∃ word?, extractWord text line column = .ok word?) ∧
      (extractWord text line column = .ok none ↔ IsBare text line column) ∧
      (∀ word, extractWord text line column = .ok (some word) ↔ IsWordAt text line column word) ∧
      ∀ (s : MockServer) (params : Json),
        ∃ found, s.occurrencesAt params = .ok found ∧ s.FindsAt params found := by
  refine ⟨?_, MockText.extractWord_eq_none_iff, fun _ => MockText.extractWord_eq_some_iff,
    exists_occurrencesAt⟩
  rcases MockText.extractWord_eq text line column with ⟨word, hword, -⟩ | ⟨hnone, -⟩
  · exact ⟨_, hword⟩
  · exact ⟨_, hnone⟩

end MockServer

end LanguageHub
