import LanguageHub.Wire.Frame

/-!
# What is written is what is read

A frame in front of anything else is taken out of the receive buffer as it was written.
What is taken, or found unreadable, does not depend on the bytes that come behind it.
-/

namespace LanguageHub

/-- A first part whose end can be seen. -/
theorem span_append {α : Type} {p : α → Bool} {s t : List α} (h : ∀ a ∈ s, p a = true)
    (hend : ∀ a ∈ t.head?, p a = false) :
    (s ++ t).takeWhile p = s ∧ (s ++ t).dropWhile p = t := by
  rw [List.takeWhile_append_of_pos h, List.dropWhile_append_of_pos h]
  cases t with
  | nil => simp
  | cons a t => simp [hend a rfl]

/-! ## Numbers in headers -/

namespace Text

theorem isDigit_of_mem_toDigits {n : Nat} {c : Char} (h : c ∈ Nat.toDigits 10 n) :
    isDigit c = true := by
  have := Nat.isDigit_of_mem_toDigits (by decide) (by decide) h
  simpa [isDigit, Char.isDigit, Char.le_def] using this

theorem toNat_of_isDigit {c : Char} (h : isDigit c = true) : 48 ≤ c.toNat ∧ c.toNat ≤ 57 := by
  simpa [isDigit, Char.le_def, UInt32.le_iff_toNat_le] using h

theorem isBlank_of_isDigit {c : Char} (h : isDigit c = true) : isBlank c = false := by
  have := toNat_of_isDigit h
  simp only [isBlank, Bool.decide_or, Bool.or_eq_false_iff, decide_eq_false_iff_not]
  omega

theorem natural?_toDigits (n : Nat) : natural? (Nat.toDigits 10 n) = some n := by
  have all : (Nat.toDigits 10 n).all isDigit = true :=
    List.all_eq_true.mpr fun _ hc => isDigit_of_mem_toDigits hc
  have value := Nat.ofDigitChars_toDigits (b := 10) (n := n) (by decide) (by decide)
  simp only [Nat.ofDigitChars_eq_foldl, Nat.mul_comm 10] at value
  have plus : ∀ t, Nat.toDigits 10 n ≠ '+' :: t := fun t h =>
    absurd (isDigit_of_mem_toDigits (h ▸ List.mem_cons_self)) (by decide)
  unfold natural?
  split
  · exact absurd ‹_› (plus _)
  · simpa [all, Nat.toDigits_ne_nil] using value

theorem trim_blank_toDigits (n : Nat) : trim (' ' :: Nat.toDigits 10 n) = Nat.toDigits 10 n := by
  have none_blank (s : List Char) (h : ∀ c ∈ s, isDigit c = true) : s.dropWhile isBlank = s := by
    cases s with
    | nil => rfl
    | cons c s => simp [isBlank_of_isDigit (h c List.mem_cons_self)]
  have digits := fun c (h : c ∈ Nat.toDigits 10 n) => isDigit_of_mem_toDigits h
  have blank : isBlank ' ' = true := by decide
  rw [trim, List.dropWhile_cons, if_pos blank, none_blank _ digits,
    none_blank _ (by simpa using digits), List.reverse_reverse]

theorem splitOn_of_not_mem {separator : Char} {s : List Char} (h : separator ∉ s) :
    splitOn separator s = [s] := by
  induction s with
  | nil => rfl
  | cons c s ih =>
    rw [List.mem_cons, not_or] at h
    rw [splitOn, if_neg (Ne.symm h.1), ih h.2]

theorem separator_not_mem_splitOn {separator : Char} {s piece : List Char}
    (hpiece : piece ∈ splitOn separator s) : separator ∉ piece := by
  induction s generalizing piece with
  | nil =>
    rw [List.mem_singleton.mp hpiece]
    exact List.not_mem_nil
  | cons c rest ih =>
    unfold splitOn at hpiece
    split at hpiece
    · rcases List.mem_cons.mp hpiece with rfl | hrest
      · exact List.not_mem_nil
      · exact ih hrest
    · rename_i hc
      have hhead : ∀ before : List Char, separator ∉ before → separator ∉ c :: before :=
        fun before hbefore hmem => (List.mem_cons.mp hmem).elim (fun heq => hc heq.symm) hbefore
      cases hpieces : splitOn separator rest with
      | nil =>
        rw [hpieces] at hpiece
        rw [List.mem_singleton.mp hpiece]
        exact hhead [] List.not_mem_nil
      | cons first others =>
        rw [hpieces] at hpiece ih
        rcases List.mem_cons.mp hpiece with rfl | hother
        · exact hhead first (ih (List.mem_cons_self ..))
        · exact ih (List.mem_cons_of_mem _ hother)

theorem splitOn_ne_nil (separator : Char) (s : List Char) : splitOn separator s ≠ [] := by
  cases s with
  | nil => simp [splitOn]
  | cons c s =>
    unfold splitOn
    split
    · simp
    · split <;> simp

theorem intercalate_splitOn (separator : Char) (s : List Char) :
    [separator].intercalate (splitOn separator s) = s := by
  induction s with
  | nil => rfl
  | cons c s ih =>
    obtain ⟨first, others, hpieces⟩ := List.exists_cons_of_ne_nil (splitOn_ne_nil separator s)
    unfold splitOn
    rw [hpieces] at ih ⊢
    split
    · rename_i hc
      subst hc
      simpa using ih
    · cases others <;> simpa using ih

theorem splitOnce?_append {separator : Char} {s : List Char} (h : separator ∉ s) (t : List Char) :
    splitOnce? separator (s ++ separator :: t) = some (s, t) := by
  have pass : ∀ c ∈ s, decide (c ≠ separator) = true := fun c hc =>
    decide_eq_true fun e => h (e ▸ hc)
  rw [splitOnce?, List.dropWhile_append_of_pos pass, List.takeWhile_append_of_pos pass]
  simp

end Text

namespace Frame

/-! ## Text as bytes -/

theorem bytesOf_append (s t : List Char) : bytesOf (s ++ t) = bytesOf s ++ bytesOf t :=
  List.flatMap_append

theorem textOf?_bytesOf (text : List Char) :
    textOf? (bytesOf text) = some (String.ofList text) := by
  have same : (⟨(bytesOf text).toArray⟩ : ByteArray) = text.utf8Encode :=
    ByteArray.ext List.data_toByteArray.symm
  rw [textOf?, same, String.fromUTF8?, dif_pos ByteArray.isValidUTF8_utf8Encode]
  rfl

/-! ## The head of a frame -/

/-- The only line of a header. -/
def lengthLine (bodyLength : Nat) : List Char :=
  "Content-Length: ".toList ++ Nat.toDigits 10 bodyLength

theorem bytesOf_header (n : Nat) :
    bytesOf (header n) = bytesOf (lengthLine n) ++ [13, 10, 13, 10] := by
  have stop : bytesOf "\r\n\r\n".toList = [13, 10, 13, 10] := by decide +kernel
  exact (bytesOf_append (lengthLine n) _).trans (congrArg _ stop)

theorem mem_lengthLine {n : Nat} {c : Char} (h : c ∈ lengthLine n) :
    c ∈ "Content-Length: ".toList ∨ Text.isDigit c = true := by
  rcases List.mem_append.mp h with h | h
  · exact .inl h
  · exact .inr (Text.isDigit_of_mem_toDigits h)

theorem return_not_mem_lengthLine (n : Nat) : 13 ∉ bytesOf (lengthLine n) := by
  intro h
  obtain ⟨c, hc, hb⟩ := List.mem_flatMap.mp h
  rcases mem_lengthLine hc with hc | hc
  · have name : "Content-Length: ".toList.all
        (fun c => !(String.utf8EncodeChar c).contains 13) = true := by decide +kernel
    have := List.all_eq_true.mp name c hc
    simp [hb] at this
  · obtain ⟨low, high⟩ : 48 ≤ c.val.toNat ∧ c.val.toNat ≤ 57 := Text.toNat_of_isDigit hc
    rw [String.utf8EncodeChar.eq_1, if_pos (by omega), List.mem_singleton] at hb
    have := congrArg UInt8.toNat hb
    rw [UInt8.toNat_ofNat_of_lt' (by change _ < 256; omega)] at this
    change 13 = _ at this
    omega

theorem newline_not_mem_lengthLine (n : Nat) : '\n' ∉ lengthLine n := by
  intro h
  rcases mem_lengthLine h with h | h
  · revert h; decide
  · revert h; decide

theorem lengthLine_eq (n : Nat) :
    lengthLine n = "Content-Length".toList ++ ':' :: ' ' :: Nat.toDigits 10 n := by
  have name : "Content-Length: ".toList = "Content-Length".toList ++ [':', ' '] := by
    decide +kernel
  exact (congrArg (· ++ Nat.toDigits 10 n) name).trans (List.append_assoc _ _ _)

theorem splitOnce?_lengthLine (n : Nat) :
    Text.splitOnce? ':' (lengthLine n) =
      some ("Content-Length".toList, ' ' :: Nat.toDigits 10 n) :=
  lengthLine_eq n ▸ Text.splitOnce?_append (by decide +kernel) _

theorem lengthOfLine_lengthLine {n : Nat} (h : n < addressLimit) :
    lengthOfLine (lengthLine n) = .ok (some n) := by
  have name : Text.lowered (Text.trim "Content-Length".toList) = "content-length".toList := by
    decide +kernel
  simp only [lengthOfLine, splitOnce?_lengthLine, name, ne_eq, not_true_eq_false, if_false,
    Text.trim_blank_toDigits, Text.natural?_toDigits, h, if_true]

theorem lengthOfHead_lengthLine {n : Nat} (h : n < addressLimit) :
    lengthOfHead (bytesOf (lengthLine n)) = .ok (some n) := by
  simp [lengthOfHead, textOf?_bytesOf, Text.splitOn_of_not_mem (newline_not_mem_lengthLine n),
    lengthOfLines, lengthOfLine_lengthLine h, Except.map]

/-! ## The first frame -/

theorem splitHead?_of_no_return {head : Bytes} (h : 13 ∉ head) (rest : Bytes) :
    splitHead? (head ++ 13 :: 10 :: 13 :: 10 :: rest) = some (head, rest) := by
  induction head with
  | nil => rfl
  | cons b head ih =>
    rw [List.mem_cons, not_or] at h
    rw [List.cons_append, splitHead?, ih h.2]
    · rfl
    · rintro _ rfl
      exact absurd rfl h.1

theorem splitHead?_append {p head rest : Bytes} (h : splitHead? p = some (head, rest)) (q : Bytes) :
    splitHead? (p ++ q) = some (head, rest ++ q) := by
  fun_induction splitHead? p generalizing head rest with
  | case1 =>
    simp only [Option.some.injEq, Prod.mk.injEq] at h
    obtain ⟨rfl, rfl⟩ := h
    rfl
  | case2 b tail other ih =>
    simp only [Option.map_eq_some_iff, Prod.mk.injEq] at h
    obtain ⟨⟨head, rest⟩, h, rfl, rfl⟩ := h
    have long := length_splitHead? h
    rw [List.cons_append, splitHead?, ih h]
    · rfl
    · rintro more rfl e
      -- a blank line that ends behind `p` would begin in the last three bytes
      have start : tail.take 3 = [10, 13, 10] := by
        have inside : (tail ++ q).take 3 = tail.take 3 := List.take_append_of_le_length (by omega)
        rw [← inside, e]
        rfl
      exact other (tail.drop 3) rfl (by rw [← List.take_append_drop 3 tail, start]; rfl)
  | case3 => simp at h

/-- What is taken from a buffer is taken from a longer one too, unless the reader waits. -/
theorem take_append {p : Bytes} (h : take p ≠ (.ok none, p)) (q : Bytes) :
    take (p ++ q) = ((take p).1, (take p).2 ++ q) := by
  cases hs : splitHead? p with
  | none => simp [take, hs] at h
  | some parts =>
    obtain ⟨head, rest⟩ := parts
    cases hl : lengthOfHead head with
    | error e => simp [take, hs, splitHead?_append hs, hl]
    | ok length =>
      cases length with
      | none => simp [take, hs, splitHead?_append hs, hl]
      | some n =>
        by_cases far : addressLimit ≤ head.length + 4 + n
        · simp [take, hs, splitHead?_append hs, hl, far]
        by_cases short : rest.length < n
        · simp [take, hs, hl, far, short] at h
        have more : ¬ (rest ++ q).length < n := by simp only [List.length_append]; omega
        simp only [take, hs, splitHead?_append hs, hl, if_neg far, if_neg short, if_neg more,
          List.take_append_of_le_length (Nat.le_of_not_lt short),
          List.drop_append_of_le_length (Nat.le_of_not_lt short)]
        cases textOf? (rest.take n) <;> rfl

theorem length_encode (body : String) :
    (encode body).length =
      (bytesOf (lengthLine (bytesOf body.toList).length)).length + 4 +
        (bytesOf body.toList).length := by
  simp only [encode, around, bytesOf_header, List.length_append, List.length_cons, List.length_nil]

theorem splitHead?_encode (body : String) (rest : Bytes) :
    splitHead? (encode body ++ rest) =
      some (bytesOf (lengthLine (bytesOf body.toList).length), bytesOf body.toList ++ rest) := by
  have := splitHead?_of_no_return (return_not_mem_lengthLine (bytesOf body.toList).length)
    (bytesOf body.toList ++ rest)
  simpa [encode, around, bytesOf_header] using this

/-- A frame whose end has an address is taken from the front of a buffer. -/
theorem take_encode {body : String} (h : (encode body).length < addressLimit) (rest : Bytes) :
    take (encode body ++ rest) = (.ok (some body), rest) := by
  rw [length_encode] at h
  have length := lengthOfHead_lengthLine (n := (bytesOf body.toList).length) (by omega)
  simp only [take, splitHead?_encode, length]
  rw [if_neg (by omega), if_neg (by simp), List.take_left, List.drop_left, textOf?_bytesOf,
    String.ofList_toList]

end Frame

end LanguageHub

/-!
# What is taken from any buffer

Whatever bytes a receive buffer holds, its first header block goes up to the first blank line, and
the last of the lengths that the block gives counts. Nothing is taken before the whole body is
there, and a block without a length goes alone.

Laws: a body is taken exactly when all of its frame is there; a reader that takes nothing leaves the
buffer as it is or drops such a block; it breaks down exactly on a frame that ends beyond every
address.
-/

namespace LanguageHub.Frame

/-! ## Header blocks -/

/-- The end of a line and an empty line. -/
def blankLine : Bytes := [13, 10, 13, 10]

/-- The buffer begins with this header block, which ends where the first blank line begins. -/
structure IsHead (buffer head rest : Bytes) : Prop where
  cut : buffer = head ++ blankLine ++ rest
  first : ∀ before after, buffer = before ++ blankLine ++ after → head.length ≤ before.length

variable {buffer head rest : Bytes} {b : UInt8}

theorem isHead_blankLine (rest : Bytes) : IsHead (13 :: 10 :: 13 :: 10 :: rest) [] rest :=
  ⟨rfl, fun _ _ _ => Nat.zero_le _⟩

theorem IsHead.cons (h : IsHead buffer head rest)
    (hstart : ∀ after, b :: buffer ≠ blankLine ++ after) :
    IsHead (b :: buffer) (b :: head) rest where
  cut := by rw [h.cut]; rfl
  first before after heq := by
    cases before with
    | nil => exact absurd heq (hstart after)
    | cons b' before =>
      obtain ⟨-, heq⟩ := List.cons.inj heq
      exact Nat.succ_le_succ (h.first before after heq)

/-- A buffer is split at its first blank line. -/
theorem isHead_of_splitHead? (h : splitHead? buffer = some (head, rest)) :
    IsHead buffer head rest := by
  fun_induction splitHead? buffer generalizing head rest with
  | case1 rest' =>
    simp only [Option.some.injEq, Prod.mk.injEq] at h
    obtain ⟨rfl, rfl⟩ := h
    exact isHead_blankLine rest'
  | case2 b tail hother ih =>
    simp only [Option.map_eq_some_iff, Prod.mk.injEq] at h
    obtain ⟨⟨head, rest⟩, h, rfl, rfl⟩ := h
    refine (ih h).cons fun after heq => ?_
    obtain ⟨rfl, rfl⟩ := List.cons.inj heq
    exact hother after rfl rfl
  | case3 => cases h

theorem isSome_splitHead? (before after : Bytes) :
    (splitHead? (before ++ blankLine ++ after)).isSome = true := by
  induction before with
  | nil => rfl
  | cons b before ih =>
    rw [List.cons_append, List.cons_append]
    unfold splitHead?
    split
    · rfl
    · rename_i heq
      obtain ⟨rfl, rfl⟩ := List.cons.inj heq
      rw [Option.isSome_map, ih]
    · contradiction

/-- A buffer has one first header block. -/
theorem IsHead.splitHead? (h : IsHead buffer head rest) :
    splitHead? buffer = some (head, rest) := by
  have hsome := isSome_splitHead? head rest
  rw [← h.cut] at hsome
  obtain ⟨⟨head', rest'⟩, hsplit⟩ := Option.isSome_iff_exists.mp hsome
  have h' := isHead_of_splitHead? hsplit
  have hlength : head'.length = head.length :=
    Nat.le_antisymm (h'.first _ _ h.cut) (h.first _ _ h'.cut)
  have hcut : head' ++ (blankLine ++ rest') = head ++ (blankLine ++ rest) := by
    rw [← List.append_assoc, ← List.append_assoc, ← h.cut, ← h'.cut]
  obtain ⟨rfl, htail⟩ := List.append_inj hcut hlength
  rw [hsplit, List.append_cancel_left htail]

/-! ## Lengths -/

/-- What a header line gives as the length; nothing when it is about something else. -/
def lengthValue? (line : List Char) : Option (List Char) :=
  (Text.splitOnce? ':' line).bind fun (name, value) =>
    if Text.lowered (Text.trim name) = "content-length".toList then some (Text.trim value) else none

/-- The number of 64 bits that a value is. -/
def length? (value : List Char) : Option Nat :=
  (Text.natural? value).filter fun n => decide (n < addressLimit)

/-- The lengths that a header block gives, in the order of its lines; nothing unless each of them is
a number. -/
def lengths? (lines : List (List Char)) : Option (List Nat) :=
  (lines.filterMap lengthValue?).mapM length?

/-- The last of the lengths that the block gives is `n`. -/
def Announces (head : Bytes) (n : Nat) : Prop :=
  ∃ text lengths, textOf? head = some text ∧
    lengths? (Text.splitOn '\n' text.toList) = some lengths ∧ lengths.getLast? = some n

/-- The block gives no length. -/
def IsSilent (head : Bytes) : Prop :=
  ∃ text, textOf? head = some text ∧ lengths? (Text.splitOn '\n' text.toList) = some []

theorem lengthOfLine_eq (line : List Char) : lengthOfLine line =
    match lengthValue? line with
    | none => .ok none
    | some value => (length? value).elim (.error .length) fun n => .ok (some n) := by
  unfold lengthOfLine lengthValue?
  cases Text.splitOnce? ':' line with
  | none => rfl
  | some parts =>
    obtain ⟨name, value⟩ := parts
    dsimp only [Option.bind_some]
    by_cases hname : Text.lowered (Text.trim name) = "content-length".toList
    · rw [if_neg (not_not_intro hname), if_pos hname]
      dsimp only [length?]
      cases Text.natural? (Text.trim value) with
      | none => rfl
      | some n => by_cases hn : n < addressLimit <;> simp [Option.filter, hn]
    · rw [if_pos hname, if_neg hname]

section Lines

variable {line value : List Char} {lines : List (List Char)}

theorem lengths?_cons_of_none (h : lengthValue? line = none) :
    lengths? (line :: lines) = lengths? lines := by
  rw [lengths?, List.filterMap_cons_none h, lengths?]

theorem lengths?_cons_of_some (h : lengthValue? line = some value) :
    lengths? (line :: lines) = (length? value).bind fun n => (lengths? lines).map (n :: ·) := by
  simp only [lengths?, List.filterMap_cons_some h, List.mapM_cons, Option.map_eq_bind]
  rfl

end Lines

/-- Of several lengths the last one counts, and each must be a number. -/
theorem lengthOfLines_eq (lines : List (List Char)) :
    lengthOfLines lines = (lengths? lines).elim (.error .length) fun ns => .ok ns.getLast? := by
  induction lines with
  | nil => rfl
  | cons line lines ih =>
    rw [lengthOfLines, lengthOfLine_eq, ih]
    cases hvalue : lengthValue? line with
    | none =>
      rw [lengths?_cons_of_none hvalue]
      cases lengths? lines <;> simp [Except.map]
    | some value =>
      rw [lengths?_cons_of_some hvalue]
      dsimp only
      cases length? value with
      | none => rfl
      | some n =>
        cases lengths? lines with
        | none => rfl
        | some ns => cases hlast : ns.getLast? <;> simp [Except.map, List.getLast?_cons, hlast]

variable {n : Nat} {fault : Fault} {body : String}

theorem lengthOfHead_eq_some_iff : lengthOfHead head = .ok (some n) ↔ Announces head n := by
  unfold lengthOfHead Announces
  cases textOf? head with
  | none => simp
  | some text =>
    simp only [lengthOfLines_eq, Option.some.injEq, exists_and_left, exists_eq_left']
    cases lengths? (Text.splitOn '\n' text.toList) <;> simp

theorem lengthOfHead_eq_none_iff : lengthOfHead head = .ok none ↔ IsSilent head := by
  unfold lengthOfHead IsSilent
  cases textOf? head with
  | none => simp
  | some text =>
    simp only [lengthOfLines_eq, Option.some.injEq, exists_eq_left']
    cases lengths? (Text.splitOn '\n' text.toList) <;> simp

theorem ne_beyondMemory_of_lengthOfHead (h : lengthOfHead head = .error fault) :
    fault ≠ .beyondMemory := by
  rintro rfl
  unfold lengthOfHead at h
  split at h
  · cases h
  · rename_i text _
    rw [lengthOfLines_eq] at h
    cases hlengths : lengths? (Text.splitOn '\n' text.toList) <;> simp [hlengths] at h

/-! ## Outcomes -/

/-- What may come of a look at the buffer, and what the buffer is after it. -/
inductive Takes (buffer : Bytes) : Except Fault (Option String) → Bytes → Prop
  | waitsForHead (hnone : ∀ head rest, ¬ IsHead buffer head rest) :
      Takes buffer (.ok none) buffer
  | drops {head rest : Bytes} (hhead : IsHead buffer head rest) (hsilent : IsSilent head) :
      Takes buffer (.ok none) rest
  | refuses {head rest : Bytes} {fault : Fault} (hhead : IsHead buffer head rest)
      (hfault : lengthOfHead head = .error fault) : Takes buffer (.error fault) buffer
  | breaksDown {head rest : Bytes} {n : Nat} (hhead : IsHead buffer head rest)
      (hlength : Announces head n) (hbeyond : addressLimit ≤ head.length + 4 + n) :
      Takes buffer (.error .beyondMemory) buffer
  | waitsForBody {head rest : Bytes} {n : Nat} (hhead : IsHead buffer head rest)
      (hlength : Announces head n) (hfits : head.length + 4 + n < addressLimit)
      (hshort : rest.length < n) : Takes buffer (.ok none) buffer
  | rejects {head bytes rest : Bytes} (hhead : IsHead buffer head (bytes ++ rest))
      (hlength : Announces head bytes.length) (htext : textOf? bytes = none) :
      Takes buffer (.error .bodyText) rest
  | hands {head bytes rest : Bytes} {body : String} (hhead : IsHead buffer head (bytes ++ rest))
      (hlength : Announces head bytes.length)
      (hfits : head.length + 4 + bytes.length < addressLimit) (htext : textOf? bytes = some body) :
      Takes buffer (.ok (some body)) rest

theorem takes_take (buffer : Bytes) : Takes buffer (take buffer).1 (take buffer).2 := by
  unfold take
  split
  · rename_i hsplit
    refine .waitsForHead fun head rest h => ?_
    rw [h.splitHead?] at hsplit
    cases hsplit
  · rename_i head rest hsplit
    have hhead := isHead_of_splitHead? hsplit
    split
    · rename_i fault hfault
      exact .refuses hhead hfault
    · rename_i hsilent
      exact .drops hhead (lengthOfHead_eq_none_iff.mp hsilent)
    · rename_i n hlength
      have hlength := lengthOfHead_eq_some_iff.mp hlength
      split
      · rename_i hbeyond
        exact .breaksDown hhead hlength hbeyond
      rename_i hfits
      have hfits := Nat.lt_of_not_le hfits
      split
      · rename_i hshort
        exact .waitsForBody hhead hlength hfits hshort
      · -- The body is all there: the bytes behind the head are cut after it.
        rename_i hlong
        have hcount : (rest.take n).length = n :=
          List.length_take_of_le (Nat.le_of_not_lt hlong)
        rw [← List.take_append_drop n rest] at hhead
        split
        · rename_i htext
          exact .rejects hhead (hcount.symm ▸ hlength) htext
        · rename_i body htext
          exact .hands hhead (hcount.symm ▸ hlength) (hcount.symm ▸ hfits) htext

theorem take_of_isSilent (h : IsHead buffer head rest) (hsilent : IsSilent head) :
    take buffer = (.ok none, rest) := by
  simp only [take, h.splitHead?, lengthOfHead_eq_none_iff.mpr hsilent]

theorem take_of_not_isHead (h : ∀ head rest, ¬ IsHead buffer head rest) :
    take buffer = (.ok none, buffer) := by
  cases hsplit : Frame.splitHead? buffer with
  | none => simp only [take, hsplit]
  | some parts => exact absurd (isHead_of_splitHead? hsplit) (h _ _)

theorem take_of_announces (h : IsHead buffer head rest) (hlength : Announces head n) :
    take buffer =
      if addressLimit ≤ head.length + 4 + n then (.error .beyondMemory, buffer)
      else if rest.length < n then (.ok none, buffer)
      else match textOf? (rest.take n) with
        | none => (.error .bodyText, rest.drop n)
        | some body => (.ok (some body), rest.drop n) := by
  have hhead := lengthOfHead_eq_some_iff.mpr hlength
  unfold take
  split
  · rename_i hnone
    cases h.splitHead?.symm.trans hnone
  · rename_i head' rest' hsome
    obtain ⟨rfl, rfl⟩ := Prod.mk.inj (Option.some.inj (h.splitHead?.symm.trans hsome))
    generalize lengthOfHead head = length at hhead
    subst hhead
    rfl

/-- For every buffer: a body is taken exactly when all of the first frame is there, and then the
head and as many bytes as the last length says are gone; where nothing is taken the buffer is as it
was, or a block without a length is gone; and the reader breaks down exactly when the end of the
first frame is beyond every address. -/
theorem take_spec (buffer : Bytes) :
    (∀ body rest, take buffer = (.ok (some body), rest) ↔ ∃ head bytes,
      IsHead buffer head (bytes ++ rest) ∧ Announces head bytes.length ∧
        head.length + 4 + bytes.length < addressLimit ∧ textOf? bytes = some body) ∧
    (∀ left, take buffer = (.ok none, left) ↔
      (∃ head, IsHead buffer head left ∧ IsSilent head) ∨
      left = buffer ∧ ((∀ head rest, ¬ IsHead buffer head rest) ∨ ∃ head rest n,
        IsHead buffer head rest ∧ Announces head n ∧ head.length + 4 + n < addressLimit ∧
          rest.length < n)) ∧
    ((take buffer).1 = .error .beyondMemory ↔ ∃ head rest n,
      IsHead buffer head rest ∧ Announces head n ∧ addressLimit ≤ head.length + 4 + n) := by
  have htakes := takes_take buffer
  refine ⟨fun body rest => ⟨fun h => ?_, ?_⟩, fun left => ⟨fun h => ?_, ?_⟩, fun h => ?_, ?_⟩
  · rw [h] at htakes
    cases htakes with
    | hands hhead hlength hfits htext => exact ⟨_, _, hhead, hlength, hfits, htext⟩
  · rintro ⟨head, bytes, hhead, hlength, hfits, htext⟩
    rw [take_of_announces hhead hlength, if_neg (Nat.not_le_of_lt hfits), if_neg (by simp),
      List.take_left, List.drop_left, htext]
  · rw [h] at htakes
    cases htakes with
    | waitsForHead hnone => exact .inr ⟨rfl, .inl hnone⟩
    | drops hhead hsilent => exact .inl ⟨_, hhead, hsilent⟩
    | waitsForBody hhead hlength hfits hshort =>
      exact .inr ⟨rfl, .inr ⟨_, _, _, hhead, hlength, hfits, hshort⟩⟩
  · rintro (⟨head, hhead, hsilent⟩ | ⟨rfl, hnone | ⟨head, rest, n, hhead, hlength, hfits, hshort⟩⟩)
    · exact take_of_isSilent hhead hsilent
    · exact take_of_not_isHead hnone
    · rw [take_of_announces hhead hlength, if_neg (Nat.not_le_of_lt hfits), if_pos hshort]
  · rw [h] at htakes
    generalize (take buffer).2 = left at htakes
    cases htakes with
    | refuses hhead hfault => exact absurd rfl (ne_beyondMemory_of_lengthOfHead hfault)
    | breaksDown hhead hlength hbeyond => exact ⟨_, _, _, hhead, hlength, hbeyond⟩
  · rintro ⟨head, rest, n, hhead, hlength, hbeyond⟩
    rw [take_of_announces hhead hlength, if_pos hbeyond]

/-- A header block of forty bytes brings the reader down. -/
theorem take_breaks_down :
    let block := bytesOf "Content-Length: 18446744073709551615\r\n\r\n".toList
    block.length = 40 ∧ take block = (.error .beyondMemory, block) :=
  ⟨rfl, rfl⟩

end LanguageHub.Frame
