import LanguageHub.Json.Printer
import LanguageHub.Json.Reader
import LanguageHub.Proofs.Wire.Framing
import Mathlib.Algebra.Group.Int.Defs
import Mathlib.Algebra.Group.Nat.Defs

/-!
# Strings and integers are read as they were written

Whatever characters a string has, its reader decodes each escape to the character it stands for
and stops at the quote behind the last one. An integer of 64 bits is read from its digits when
nothing behind them could belong to a numeral.
-/

namespace LanguageHub

/-! ## Numerals -/

namespace Numeral

/-- What comes behind a numeral is no part of it. -/
def Ends (rest : List Char) : Prop :=
  ∀ c ∈ rest.head?, isDigit c = false ∧ c ≠ '.' ∧ c ≠ 'e' ∧ c ≠ 'E'

variable {c : Char} {n : Nat} {rest : List Char}

theorem isDigit_of_mem_toDigits (h : c ∈ Nat.toDigits 10 n) : isDigit c = true :=
  Text.isDigit_of_mem_toDigits h

/-- A leading zero stands alone. -/
theorem head?_toDigits_ne_zero (h : 0 < n) : (Nat.toDigits 10 n).head? ≠ some '0' := by
  induction n using Nat.strongRecOn with
  | _ n ih =>
    rw [Nat.toDigits_eq_if (by decide)]
    split
    · have digits : ∀ n < 10, 0 < n → Nat.digitChar n ≠ '0' := by decide
      simpa using digits n (by assumption) h
    · have hhead := ih (n / 10) (by omega) (by omega)
      rw [List.head?_append]
      cases hdigits : (Nat.toDigits 10 (n / 10)).head? with
      | none => exact absurd (List.head?_eq_none_iff.mp hdigits) Nat.toDigits_ne_nil
      | some c =>
        rw [hdigits] at hhead
        exact hhead

theorem ofDigits_toDigits (n : Nat) : ofDigits (Nat.toDigits 10 n) = n := by
  have h := Nat.ofDigitChars_toDigits (b := 10) (n := n) (by decide) (by decide)
  simp only [Nat.ofDigitChars_eq_foldl, Nat.mul_comm 10] at h
  exact h

theorem le_foldl_digits (digits : List Char) (n : Nat) :
    n ≤ digits.foldl (fun n c => n * 10 + digitValue c) n := by
  induction digits generalizing n with
  | nil => exact Nat.le_refl n
  | cons c digits ih =>
    have hstep : n ≤ n * 10 + digitValue c := by omega
    exact Nat.le_trans hstep (ih _)

/-- Digits that fit all count. -/
theorem wholeDigits_of_le {digits : List Char} {p : Parts}
    (h : digits.foldl (fun n c => n * 10 + digitValue c) p.significand ≤ maxUnsigned) :
    wholeDigits digits p =
      ⟨digits.foldl (fun n c => n * 10 + digitValue c) p.significand, p.exponent⟩ := by
  induction digits generalizing p with
  | nil => rfl
  | cons c digits ih =>
    rw [wholeDigits, if_pos (Nat.le_trans (le_foldl_digits digits _) h)]
    exact ih h

theorem takeWhile_digits (n : Nat) (hends : Ends rest) :
    (Nat.toDigits 10 n ++ rest).takeWhile isDigit = Nat.toDigits 10 n ∧
      (Nat.toDigits 10 n ++ rest).dropWhile isDigit = rest :=
  span_append (fun _ hc => isDigit_of_mem_toDigits hc) fun c hc => (hends c hc).1

/-- The digits of a number that fits are read as that number. -/
theorem unsigned?_toDigits (hn : n ≤ maxUnsigned) (hends : Ends rest) (negative : Bool) :
    unsigned? negative (Nat.toDigits 10 n ++ rest) = (integer? negative ⟨n, 0⟩).map (·, rest) := by
  obtain ⟨htake, hdrop⟩ := takeWhile_digits n hends
  have hzero : ¬ ((Nat.toDigits 10 n).isEmpty ∨
      (Nat.toDigits 10 n).head? = some '0' ∧ 1 < (Nat.toDigits 10 n).length) := by
    rcases Nat.eq_zero_or_pos n with rfl | hpos
    · decide
    · simp [Nat.toDigits_ne_nil, head?_toDigits_ne_zero hpos]
  have hparts : wholeDigits (Nat.toDigits 10 n) ⟨0, 0⟩ = ⟨n, 0⟩ := by
    have h := ofDigits_toDigits n
    unfold ofDigits at h
    rw [wholeDigits_of_le (by rw [h]; exact hn), h]
  unfold unsigned?
  rw [htake, hdrop, if_neg hzero]
  dsimp only
  rw [hparts]
  cases rest with
  | nil => rfl
  | cons c rest =>
    obtain ⟨-, hpoint, hlower, hupper⟩ := hends c rfl
    split
    · exact absurd (List.cons.inj ‹_›).1 hpoint
    · simp [finish?, hlower, hupper]

theorem integer?_of_unsigned (n : Nat) : integer? false ⟨n, 0⟩ = some (.int n) := rfl

theorem integer?_of_negative (hpos : 0 < n) (hn : n ≤ 2 ^ 63) :
    integer? true ⟨n, 0⟩ = some (.int (-n)) := by
  have hinside : ¬ (n = 0 ∨ Nat.pow 2 63 < n) := by
    change ¬ (n = 0 ∨ 2 ^ 63 < n)
    omega
  simp only [integer?, ne_eq, not_true_eq_false, if_false, Bool.not_true, Bool.false_eq_true,
    if_neg hinside]

/-- A sign is not taken for a digit. -/
theorem number?_toDigits (n : Nat) (rest : List Char) :
    number? (Nat.toDigits 10 n ++ rest) = unsigned? false (Nat.toDigits 10 n ++ rest) := by
  unfold number?
  split
  · rename_i heq
    cases hdigits : Nat.toDigits 10 n with
    | nil => exact absurd hdigits Nat.toDigits_ne_nil
    | cons c digits =>
      have hdigit := isDigit_of_mem_toDigits (hdigits ▸ List.mem_cons_self)
      rw [hdigits] at heq
      rw [(List.cons.inj heq).1] at hdigit
      exact absurd hdigit (by decide)
  · rfl

/-- An integer of 64 bits is read from what is written for it. -/
theorem number?_integerText {n : Int} (hlow : -2 ^ 63 ≤ n) (hhigh : n < 2 ^ 64)
    (hends : Ends rest) :
    number? (Json.integerText n ++ rest) = some (.int n, rest) := by
  have hmax : maxUnsigned = 18446744073709551615 := rfl
  unfold Json.integerText Json.naturalText
  split
  · rename_i hnegative
    have hvalue : -(n.natAbs : Int) = n := by omega
    change unsigned? true (Nat.toDigits 10 n.natAbs ++ rest) = _
    rw [unsigned?_toDigits (by omega) hends, integer?_of_negative (by omega) (by omega), hvalue]
    rfl
  · have hvalue : (n.natAbs : Int) = n := by omega
    rw [number?_toDigits, unsigned?_toDigits (by omega) hends, integer?_of_unsigned, hvalue]
    rfl

end Numeral

/-! ## Strings -/

namespace Json

/-- The reader takes a value from the front of a text and leaves the rest. -/
def Reads {α : Type} (read : Reader α) (s : List Char) (v : α) (rest : List Char) : Prop :=
  (read s).map (fun (v, r) => (v, r.1)) = some (v, rest)

theorem reads_iff {α : Type} {read : Reader α} {s rest : List Char} {v : α} :
    Reads read s v rest ↔ ∃ h, read s = some (v, ⟨rest, h⟩) := by
  constructor
  · intro h
    obtain ⟨⟨v, r, hr⟩, heq, h⟩ := Option.map_eq_some_iff.mp h
    obtain ⟨rfl, rfl⟩ := Prod.mk.inj h
    exact ⟨hr, heq⟩
  · rintro ⟨h, heq⟩
    rw [Reads, heq]
    rfl

theorem unit?_hexDigit : ∀ n < 32,
    unit? '0' '0' (hexDigit (n / 16)) (hexDigit n) = some n := by decide

/-- A character without an escape stands for itself. -/
theorem reads_plain {c : Char} (hslash : c ≠ '\\') (hcontrol : ¬ c.toNat < 32) (rest : List Char) :
    Reads stringChar (c :: rest) c rest := by
  unfold Reads
  generalize hs : c :: rest = s
  unfold stringChar
  split
  case h_4 =>
    obtain ⟨rfl, rfl⟩ := List.cons.inj hs
    rw [if_neg hcontrol]
    rfl
  case h_5 => cases hs
  all_goals exact absurd (List.cons.inj hs).1 hslash

/-- An escape of four digits stands for one character unless it is half of a pair. -/
theorem reads_unit {a b c d : Char} {n : Nat} (h : unit? a b c d = some n) (hn : n < 0xD800)
    (rest : List Char) :
    Reads stringChar ('\\' :: 'u' :: a :: b :: c :: d :: rest) (Char.ofNat n) rest := by
  have hhigh : isHighSurrogate n = false := by simp [isHighSurrogate]; omega
  have hlow : isLowSurrogate n = false := by simp [isLowSurrogate]; omega
  unfold Reads
  generalize hs : '\\' :: 'u' :: a :: b :: c :: d :: rest = s
  unfold stringChar
  split
  case h_1 | h_2 =>
    simp only [List.cons.injEq, true_and] at hs
    obtain ⟨rfl, rfl, rfl, rfl, rfl⟩ := hs
    simp only [h, hhigh, hlow]
    rfl
  case h_3 hother =>
    obtain ⟨hu, hdigits⟩ := List.cons.inj (List.cons.inj hs).2
    exact (hother _ _ _ _ _ hu.symm hdigits.symm).elim
  case h_4 hother =>
    obtain ⟨hslash, hescape⟩ := List.cons.inj hs
    exact (hother _ _ hslash.symm hescape.symm).elim
  case h_5 => cases hs

/-- Every character is read from what is written for it. -/
theorem reads_escapeChar (c : Char) (rest : List Char) :
    Reads stringChar (escapeChar c ++ rest) c rest := by
  unfold escapeChar
  split
  case h_8 hquote hslash _ _ _ _ _ =>
    split
    · rename_i hcontrol
      have h := reads_unit (unit?_hexDigit c.toNat hcontrol) (by omega) rest
      rwa [Char.ofNat_toNat] at h
    · rename_i hcontrol
      exact reads_plain hslash hcontrol rest
  all_goals rfl

theorem escapeChar_ne_quote (c : Char) (rest t : List Char) : escapeChar c ++ rest ≠ '"' :: t := by
  unfold escapeChar
  split
  case h_8 hquote _ _ _ _ _ _ =>
    split
    · simp
    · simpa using fun h => absurd h hquote
  all_goals simp

theorem reads_stringBody_cons {s r t : List Char} {c : Char} {cs : List Char}
    (hquote : ∀ t, s ≠ '"' :: t) (hchar : Reads stringChar s c r)
    (hbody : Reads stringBody r cs t) : Reads stringBody s (c :: cs) t := by
  obtain ⟨hr, hchar⟩ := reads_iff.mp hchar
  obtain ⟨ht, hbody⟩ := reads_iff.mp hbody
  unfold Reads stringBody
  split
  · exact absurd rfl (hquote _)
  · rw [hchar]
    dsimp only
    rw [hbody]
    rfl

/-- The inside of a string is read up to the quote behind it. -/
theorem reads_stringBody (cs rest : List Char) :
    Reads stringBody (cs.flatMap escapeChar ++ '"' :: rest) cs rest := by
  induction cs with
  | nil =>
    unfold Reads stringBody
    rfl
  | cons c cs ih =>
    rw [List.flatMap_cons, List.append_assoc]
    exact reads_stringBody_cons (escapeChar_ne_quote c _) (reads_escapeChar c _) ih

end Json

end LanguageHub

/-!
# Values are read as they were written

A value without doubles is read back from its text, as deep as its containers may nest. An object
that is written with its members in any order is read as the object with these members.
-/

namespace LanguageHub.Json

/-- A value without doubles. Its integers have 64 bits, the keys of its objects ascend, and its
containers nest at most so deep. -/
inductive Exact : Nat → Json → Prop
  | null {depth : Nat} : Exact depth .null
  | bool {depth : Nat} (b : Bool) : Exact depth (.bool b)
  | int {depth : Nat} {n : Int} (hlow : -2 ^ 63 ≤ n) (hhigh : n < 2 ^ 64) :
      Exact depth (.num (.int n))
  | str {depth : Nat} (s : String) : Exact depth (.str s)
  | arr {depth : Nat} {items : List Json} (h : ∀ v ∈ items, Exact depth v) :
      Exact (depth + 1) (.arr items)
  | obj {depth : Nat} {fields : List (String × Json)}
      (hkeys : (fields.map (·.1)).Pairwise (· < ·)) (h : ∀ f ∈ fields, Exact depth f.2) :
      Exact (depth + 1) (.obj fields)

/-- Behind a value comes nothing, a comma or the end of a container. -/
def IsEnd (rest : List Char) : Prop := ∀ c ∈ rest.head?, c = ',' ∨ c = ']' ∨ c = '\x7d'

/-- A text begins with something, which is no blank and does not end a container. -/
def Begins (s : List Char) : Prop :=
  ∃ c r, s = c :: r ∧ isBlank c = false ∧ c ≠ ']' ∧ c ≠ '\x7d'

variable {α : Type} {item : Reader α} {close c : Char} {s r t rest : List Char} {v : Json}

theorem IsEnd.ends (h : IsEnd rest) : Numeral.Ends rest := by
  intro c hc
  rcases h c hc with rfl | rfl | rfl <;> decide

theorem isEnd_cons (h : c = ',' ∨ c = ']' ∨ c = '\x7d') (r : List Char) : IsEnd (c :: r) := by
  intro c' hc'
  obtain rfl := Option.some.inj hc'
  exact h

theorem dropBlanks_cons (h : isBlank c = false) : dropBlanks (c :: r) = c :: r := by
  simp [dropBlanks, h]

/-! ## Containers -/

theorem itemsUntil_of_reads {a : α} (hblank : isBlank c = false) (h : Reads item s a (c :: t)) :
    (itemsUntil item close s).map (fun (vs, r) => (vs, r.1)) =
      if c = close then some ([a], t)
      else if c = ',' then (itemsUntil item close t).map fun (vs, r) => (a :: vs, r.1)
      else none := by
  obtain ⟨hshorter, h⟩ := reads_iff.mp h
  rw [itemsUntil, h]
  dsimp only
  split
  · rename_i heq
    rw [dropBlanks_cons hblank] at heq
    cases heq
  · rename_i heq
    rw [dropBlanks_cons hblank] at heq
    obtain ⟨rfl, rfl⟩ := List.cons.inj heq
    split
    · rfl
    split
    · cases itemsUntil item close t <;> rfl
    · rfl

theorem bracketed_cons (hblank : isBlank c = false) :
    (bracketed item close (c :: r)).map (fun (vs, t) => (vs, t.1)) =
      if c = close then some ([], r)
      else (itemsUntil item close (c :: r)).map fun (vs, t) => (vs, t.1) := by
  unfold bracketed
  split
  · rename_i heq
    rw [dropBlanks_cons hblank] at heq
    cases heq
  · rename_i heq
    rw [dropBlanks_cons hblank] at heq
    obtain ⟨rfl, rfl⟩ := List.cons.inj heq
    split <;> rfl

/-- The items of a container are read when each of them is, whatever comes behind it. -/
theorem reads_items {write : α → List Char} (hclose : close = ']' ∨ close = '\x7d')
    (rest : List Char) {vs : List α} (hne : vs ≠ [])
    (h : ∀ a ∈ vs, ∀ after, IsEnd after → Reads item (write a ++ after) a after) :
    Reads (itemsUntil item close) ([','].intercalate (vs.map write) ++ close :: rest) vs rest := by
  induction vs with
  | nil => exact absurd rfl hne
  | cons a vs ih =>
    have ha := h a List.mem_cons_self
    cases vs with
    | nil =>
      have hblank : isBlank close = false := by rcases hclose with rfl | rfl <;> decide
      rw [List.map_singleton, List.intercalate_singleton]
      exact (itemsUntil_of_reads hblank (ha _ (isEnd_cons (.inr hclose) rest))).trans (if_pos rfl)
    | cons b vs =>
      have hcomma : ',' ≠ close := by rcases hclose with rfl | rfl <;> decide
      have hmore := ih (by simp) fun a ha => h a (List.mem_cons_of_mem _ ha)
      rw [List.map_cons, List.map_cons, List.intercalate_cons_cons, ← List.map_cons,
        List.append_assoc, List.append_assoc, List.singleton_append]
      refine (itemsUntil_of_reads (by decide) (ha _ (isEnd_cons (.inl rfl) _))).trans ?_
      obtain ⟨hshorter, hmore⟩ := reads_iff.mp hmore
      rw [if_neg hcomma, if_pos rfl, hmore]
      rfl

/-- A container is read up to its end. -/
theorem reads_container {write : α → List Char} (hclose : close = ']' ∨ close = '\x7d')
    (rest : List Char) {vs : List α} (hbegins : ∀ a ∈ vs, Begins (write a))
    (h : ∀ a ∈ vs, ∀ after, IsEnd after → Reads item (write a ++ after) a after) :
    Reads (bracketed item close) ([','].intercalate (vs.map write) ++ close :: rest) vs rest := by
  cases vs with
  | nil =>
    have hblank : isBlank close = false := by rcases hclose with rfl | rfl <;> decide
    rw [List.map_nil, List.intercalate_nil, List.nil_append]
    exact (bracketed_cons hblank).trans (if_pos rfl)
  | cons a vs =>
    obtain ⟨c, r, ha, hblank, hbracket, hbrace⟩ := hbegins a List.mem_cons_self
    have hopen : c ≠ close := by rcases hclose with rfl | rfl <;> assumption
    have hitems := reads_items hclose rest (List.cons_ne_nil a vs) h
    rw [List.map_cons, ha, List.intercalate_cons_cons_left, List.cons_append] at hitems ⊢
    exact (bracketed_cons hblank).trans ((if_neg hopen).trans hitems)

/-- A member is read when its value is. -/
theorem reads_member {read : Reader α} {a : α} (key : String) (h : Reads read s a rest) :
    Reads (member read) (quote key ++ ':' :: s) (key, a) rest := by
  obtain ⟨hshorter, h⟩ := reads_iff.mp h
  have hquote : quote key ++ ':' :: s =
      '"' :: (key.toList.flatMap escapeChar ++ '"' :: ':' :: s) := by
    simp [quote]
  obtain ⟨hkeyShorter, hkey⟩ := reads_iff.mp (reads_stringBody key.toList (':' :: s))
  rw [hquote]
  unfold Reads member
  split
  · rename_i heq
    rw [dropBlanks_cons (by decide)] at heq
    obtain ⟨-, rfl⟩ := List.cons.inj heq
    rw [hkey]
    dsimp only
    split
    · rename_i heq'
      rw [dropBlanks_cons (by decide)] at heq'
      obtain ⟨-, rfl⟩ := List.cons.inj heq'
      rw [h]
      simp [Shorter.widen]
    · rename_i hother
      exact absurd (dropBlanks_cons (by decide)) (hother s)
  · rename_i hother
    exact absurd (dropBlanks_cons (by decide)) (hother _)

/-! ## Values -/

/-- What is read of a text that begins with `c`, and what is left of it. -/
theorem reads_valueOf {inside : Option (Reader Json)} (hblank : isBlank c = false)
    (h : (valueFrom inside c r).map (fun (v, t) => (v, t.1)) = some (v, rest)) :
    Reads (valueOf inside) (c :: r) v rest := by
  unfold Reads valueOf
  split
  · rename_i heq
    rw [dropBlanks_cons hblank] at heq
    cases heq
  · rename_i heq
    rw [dropBlanks_cons hblank] at heq
    obtain ⟨rfl, rfl⟩ := List.cons.inj heq
    rw [← h, Option.map_map]
    rfl

theorem value_eq (depth : Nat) : ∃ inside, value depth = valueOf inside := by
  cases depth <;> exact ⟨_, rfl⟩

theorem reads_null (inside : Option (Reader Json)) (rest : List Char) :
    Reads (valueOf inside) (text .null ++ rest) .null rest := by
  cases inside <;> exact reads_valueOf (by decide) rfl

theorem reads_bool (inside : Option (Reader Json)) (b : Bool) (rest : List Char) :
    Reads (valueOf inside) (text (.bool b) ++ rest) (.bool b) rest := by
  cases inside <;> cases b <;> exact reads_valueOf (by decide) rfl

theorem reads_str (inside : Option (Reader Json)) (s : String) (rest : List Char) :
    Reads (valueOf inside) (text (.str s) ++ rest) (.str s) rest := by
  have hquote : text (.str s) ++ rest = '"' :: (s.toList.flatMap escapeChar ++ '"' :: rest) := by
    simp [text, quote]
  obtain ⟨hshorter, hbody⟩ := reads_iff.mp (reads_stringBody s.toList rest)
  rw [hquote]
  refine reads_valueOf (by decide) ?_
  have hfrom : valueFrom inside '"' (s.toList.flatMap escapeChar ++ '"' :: rest) =
      (stringBody (s.toList.flatMap escapeChar ++ '"' :: rest)).map fun (cs, t) =>
        (.str (String.ofList cs), t.widen (Nat.le_succ _)) := by
    cases inside <;> rfl
  rw [hfrom, hbody]
  simp [Shorter.widen]

/-- A character with which no other value begins. -/
theorem valueFrom_of_digit {inside : Option (Reader Json)}
    (hc : c = '-' ∨ Numeral.isDigit c = true) :
    (valueFrom inside c r).map (fun (v, t) => (v, t.1)) =
      (Numeral.number? (c :: r)).map fun (n, t) => (.num n, t) := by
  unfold valueFrom
  split
  case h_7 =>
    split <;> simp only [Option.map_none, Option.map_some, *]
  all_goals exact absurd hc (by decide)

theorem exists_integerText (n : Int) :
    ∃ c r, integerText n = c :: r ∧ (c = '-' ∨ Numeral.isDigit c = true) := by
  unfold integerText
  split
  · exact ⟨_, _, rfl, .inl rfl⟩
  · cases hdigits : naturalText n.natAbs with
    | nil => exact absurd hdigits Nat.toDigits_ne_nil
    | cons c r =>
      exact ⟨c, r, rfl, .inr (Numeral.isDigit_of_mem_toDigits (hdigits ▸ List.mem_cons_self))⟩

theorem isBlank_of_numeral (h : c = '-' ∨ Numeral.isDigit c = true) : isBlank c = false := by
  rw [isBlank, decide_eq_false_iff_not]
  rintro (rfl | rfl | rfl | rfl) <;> revert h <;> decide

theorem reads_int (inside : Option (Reader Json)) {n : Int} (hlow : -2 ^ 63 ≤ n)
    (hhigh : n < 2 ^ 64) (hend : IsEnd rest) :
    Reads (valueOf inside) (text (.num (.int n)) ++ rest) (.num (.int n)) rest := by
  obtain ⟨c, r, htext, hc⟩ := exists_integerText n
  have hread := Numeral.number?_integerText hlow hhigh hend.ends
  change Reads _ (integerText n ++ rest) _ _
  rw [htext, List.cons_append] at hread ⊢
  refine reads_valueOf (isBlank_of_numeral hc) ?_
  rw [valueFrom_of_digit hc, hread]
  rfl

/-- The text of an exact value begins with a character of its own. -/
theorem begins_text {depth : Nat} (h : Exact depth v) : Begins v.text := by
  cases h with
  | null => exact ⟨_, _, rfl, by decide⟩
  | bool b => cases b <;> exact ⟨_, _, rfl, by decide⟩
  | @int _ n _ _ =>
    obtain ⟨c, r, htext, hc⟩ := exists_integerText n
    refine ⟨c, r, htext, isBlank_of_numeral hc, ?_, ?_⟩ <;> rintro rfl <;> revert hc <;> decide
  | str s => exact ⟨_, _, rfl, by decide⟩
  | arr h => exact ⟨_, _, rfl, by decide⟩
  | obj hkeys h => exact ⟨_, _, rfl, by decide⟩

/-! ## Lists and objects -/

theorem itemsText_eq (items : List Json) :
    itemsText items = [','].intercalate (items.map text) := by
  induction items with
  | nil => rfl
  | cons v items ih =>
    cases items with
    | nil => simp [itemsText, List.intercalate_singleton]
    | cons w items =>
      rw [itemsText, ih, List.map_cons (l := w :: items),
        List.intercalate_cons_of_ne_nil (by simp)]
      · simp
      · simp

/-- A member as it is written. -/
def memberText (f : String × Json) : List Char := quote f.1 ++ ':' :: f.2.text

theorem fieldsText_eq (fields : List (String × Json)) :
    fieldsText fields = [','].intercalate (fields.map memberText) := by
  induction fields with
  | nil => rfl
  | cons f fields ih =>
    cases fields with
    | nil => simp [fieldsText, memberText, List.intercalate_singleton]
    | cons g fields =>
      rw [fieldsText, ih, List.map_cons (l := g :: fields),
        List.intercalate_cons_of_ne_nil (by simp)]
      · simp [memberText]
      · simp

theorem begins_memberText (f : String × Json) : Begins (memberText f) :=
  ⟨_, _, rfl, by decide⟩

theorem reads_arr {depth : Nat} {items : List Json} (hbegins : ∀ v ∈ items, Begins v.text)
    (h : ∀ v ∈ items, ∀ after, IsEnd after → Reads (value depth) (v.text ++ after) v after)
    (rest : List Char) :
    Reads (value (depth + 1)) (text (.arr items) ++ rest) (.arr items) rest := by
  have htext : text (.arr items) ++ rest =
      '[' :: ([','].intercalate (items.map text) ++ ']' :: rest) := by
    simp [text, itemsText_eq]
  obtain ⟨hshorter, hitems⟩ := reads_iff.mp (reads_container (.inl rfl) rest hbegins h)
  rw [htext]
  refine reads_valueOf (by decide) ?_
  change (((bracketed (value depth) ']' _).map _).map _) = _
  rw [hitems]
  rfl

/-- Members in any order are read as the object that has them. -/
theorem reads_obj {depth : Nat} {fields : List (String × Json)}
    (h : ∀ f ∈ fields, ∀ after, IsEnd after → Reads (value depth) (f.2.text ++ after) f.2 after)
    (rest : List Char) :
    Reads (value (depth + 1)) (text (.obj fields) ++ rest) (mkObj fields) rest := by
  have htext : text (.obj fields) ++ rest =
      '\x7b' :: ([','].intercalate (fields.map memberText) ++ '\x7d' :: rest) := by
    simp [text, fieldsText_eq]
  have hmember : ∀ f ∈ fields, ∀ after, IsEnd after →
      Reads (member (value depth)) (memberText f ++ after) f after := fun f hf after hafter => by
    rw [memberText, List.append_assoc, List.cons_append]
    exact reads_member f.1 (h f hf after hafter)
  obtain ⟨hshorter, hfields⟩ := reads_iff.mp
    (reads_container (.inr rfl) rest (fun f _ => begins_memberText f) hmember)
  rw [htext]
  refine reads_valueOf (by decide) ?_
  change (((bracketed (member (value depth)) '\x7d' _).map _).map _) = _
  rw [hfields]
  rfl

/-- A member whose key is behind all others goes to the end. -/
theorem insertField_of_lt {key : String} (v : Json) {fields : List (String × Json)}
    (h : ∀ f ∈ fields, f.1 < key) : insertField key v fields = fields ++ [(key, v)] := by
  induction fields with
  | nil => rfl
  | cons f fields ih =>
    have hlt := h f List.mem_cons_self
    have hne : key ≠ f.1 := fun heq => String.lt_irrefl _ (heq ▸ hlt)
    rw [insertField, if_neg (String.lt_asymm hlt), if_neg hne,
      ih fun g hg => h g (List.mem_cons_of_mem _ hg)]
    rfl

/-- Members in their order make up the object as it is. -/
theorem mkObj_of_ascending {fields : List (String × Json)}
    (h : (fields.map (·.1)).Pairwise (· < ·)) : mkObj fields = .obj fields := by
  suffices hfold : ∀ before : List (String × Json),
      ((before ++ fields).map (·.1)).Pairwise (· < ·) →
      fields.foldl (fun acc f => insertField f.1 f.2 acc) before = before ++ fields by
    exact congrArg obj (hfold [] h)
  clear h
  induction fields with
  | nil => simp
  | cons f fields ih =>
    intro before hsorted
    have hlast : ∀ g ∈ before, g.1 < f.1 := by
      intro g hg
      rw [List.map_append, List.pairwise_append] at hsorted
      exact hsorted.2.2 _ (List.mem_map_of_mem hg) _ (by simp)
    rw [List.foldl_cons, insertField_of_lt f.2 hlast, ih (before ++ [f]) (by simpa using hsorted)]
    simp

/-- An exact value is read back from its text. -/
theorem Exact.reads {depth : Nat} (h : Exact depth v) (hend : IsEnd rest) :
    Reads (value depth) (v.text ++ rest) v rest := by
  induction h generalizing rest with
  | @null depth =>
    obtain ⟨inside, heq⟩ := value_eq depth
    exact heq ▸ reads_null inside rest
  | @bool depth b =>
    obtain ⟨inside, heq⟩ := value_eq depth
    exact heq ▸ reads_bool inside b rest
  | @int depth n hlow hhigh =>
    obtain ⟨inside, heq⟩ := value_eq depth
    exact heq ▸ reads_int inside hlow hhigh hend
  | @str depth s =>
    obtain ⟨inside, heq⟩ := value_eq depth
    exact heq ▸ reads_str inside s rest
  | arr h ih =>
    exact reads_arr (fun v hv => begins_text (h v hv)) (fun v hv _ hafter => ih v hv hafter) rest
  | obj hkeys h ih =>
    have hobj := reads_obj (fun f hf _ hafter => ih f hf hafter) rest
    rwa [mkObj_of_ascending hkeys] at hobj

theorem read?_of_reads {s : String} (h : Reads (value nestingLimit) s.toList v []) :
    read? s = some v := by
  obtain ⟨hshorter, hvalue⟩ := reads_iff.mp h
  change ((value nestingLimit s.toList).bind _) = _
  rw [hvalue]
  rfl

theorem Exact.read?_render (h : Exact nestingLimit v) : read? v.render = some v := by
  have hreads : Reads (value nestingLimit) (v.text ++ []) v [] := h.reads nofun
  rw [List.append_nil] at hreads
  exact read?_of_reads (by rwa [render, String.toList_ofList])

theorem filterMap_read?_render {values : List Json} (h : ∀ v ∈ values, Exact nestingLimit v) :
    (values.map render).filterMap read? = values := by
  induction values with
  | nil => rfl
  | cons v values ih =>
    rw [List.forall_mem_cons] at h
    rw [List.map_cons, List.filterMap_cons_some h.1.read?_render, ih h.2]

end LanguageHub.Json
