import LanguageHub.Json.Number

/-!
# Reading JSON

`Json.read?` accepts one value with blanks around it. Containers may nest up to a limit.
Every reader returns what is left of its input together with the proof that this is
shorter, which is why the loop over the members of a container ends.
-/

namespace LanguageHub.Json

/-- What is left of `s` after something was read from its front. -/
abbrev Shorter (s : List Char) := { r : List Char // r.length < s.length }

/-- Reads a value from the front of a text, or refuses it. -/
def Reader (α : Type) := (s : List Char) → Option (α × Shorter s)

/-- What is left after a number of characters and one more. -/
def Shorter.after {s : List Char} (r : List Char) (n : Nat) (h : s.length = r.length + n + 1) :
    Shorter s :=
  ⟨r, h ▸ Nat.lt_succ_of_le (Nat.le_add_right r.length n)⟩

/-- The rest counted from a longer text. -/
def Shorter.widen {s t : List Char} (r : Shorter t) (h : t.length ≤ s.length) : Shorter s :=
  ⟨r.1, Nat.lt_of_lt_of_le r.2 h⟩

def isBlank (c : Char) : Bool := c = ' ' ∨ c = '\n' ∨ c = '\t' ∨ c = '\r'

def dropBlanks (s : List Char) : List Char := s.dropWhile isBlank

theorem length_dropBlanks_le (s : List Char) : (dropBlanks s).length ≤ s.length :=
  (List.dropWhile_suffix isBlank).length_le

/-! ## Strings -/

def hexValue? (c : Char) : Option Nat :=
  if '0' ≤ c ∧ c ≤ '9' then some (c.toNat - '0'.toNat)
  else if 'a' ≤ c ∧ c ≤ 'f' then some (c.toNat - 'a'.toNat + 10)
  else if 'A' ≤ c ∧ c ≤ 'F' then some (c.toNat - 'A'.toNat + 10)
  else none

/-- Four hexadecimal digits. -/
def unit? (a b c d : Char) : Option Nat := do
  let a ← hexValue? a
  let b ← hexValue? b
  let c ← hexValue? c
  let d ← hexValue? d
  pure (((a * 16 + b) * 16 + c) * 16 + d)

def isHighSurrogate (n : Nat) : Bool := 0xD800 ≤ n ∧ n < 0xDC00

def isLowSurrogate (n : Nat) : Bool := 0xDC00 ≤ n ∧ n < 0xE000

/-- The character after a backslash, for the escapes of one letter. -/
def shortEscape? : Char → Option Char
  | '"' => some '"'
  | '\\' => some '\\'
  | '/' => some '/'
  | 'b' => some '\x08'
  | 'f' => some '\x0c'
  | 'n' => some '\n'
  | 'r' => some '\r'
  | 't' => some '\t'
  | _ => none

/-- The first character of a string's inside, escapes decoded; a surrogate must come
as a pair. -/
def stringChar : Reader Char
  | '\\' :: 'u' :: a :: b :: c :: d :: '\\' :: 'u' :: e :: f :: g :: h :: r =>
    match unit? a b c d with
    | none => none
    | some n =>
      if isHighSurrogate n then
        match unit? e f g h with
        | none => none
        | some m =>
          if isLowSurrogate m then
            some (Char.ofNat (0x10000 + (n - 0xD800) * 0x400 + (m - 0xDC00)), .after r 11 rfl)
          else none
      else if isLowSurrogate n then none
      else some (Char.ofNat n, .after ('\\' :: 'u' :: e :: f :: g :: h :: r) 5 rfl)
  | '\\' :: 'u' :: a :: b :: c :: d :: r =>
    match unit? a b c d with
    | none => none
    | some n =>
      if isHighSurrogate n || isLowSurrogate n then none
      else some (Char.ofNat n, .after r 5 rfl)
  | '\\' :: c :: r =>
    (shortEscape? c).map (·, .after r 1 rfl)
  | c :: r => if c.toNat < 32 then none else some (c, .after r 0 rfl)
  | [] => none

/-- The inside of a string up to and with its closing quote. -/
def stringBody (s : List Char) : Option (List Char × Shorter s) :=
  match s with
  | '"' :: r => some ([], .after r 0 rfl)
  | s =>
    match stringChar s with
    | none => none
    | some (c, r) =>
      match stringBody r.1 with
      | none => none
      | some (cs, t) => some (c :: cs, t.widen (Nat.le_of_lt r.2))
termination_by s.length
decreasing_by exact r.2

/-! ## Containers -/

/-- One or more items between commas, up to and with `close`. -/
def itemsUntil (item : Reader α) (close : Char) (s : List Char) : Option (List α × Shorter s) :=
  match item s with
  | none => none
  | some (v, r) =>
    match h : dropBlanks r.1 with
    | [] => none
    | c :: t =>
      have shorter : t.length < s.length := by
        have := length_dropBlanks_le r.1
        have := r.2
        rw [h, List.length_cons] at *
        omega
      if c = close then some ([v], ⟨t, shorter⟩)
      else if c = ',' then
        match itemsUntil item close t with
        | none => none
        | some (vs, u) => some (v :: vs, u.widen (Nat.le_of_lt shorter))
      else none
termination_by s.length

/-- Items between commas inside brackets, the opening one already read. -/
def bracketed (item : Reader α) (close : Char) : Reader (List α) := fun s =>
  match h : dropBlanks s with
  | [] => none
  | c :: t =>
    if c = close then
      some ([], ⟨t, by have := length_dropBlanks_le s; rw [h, List.length_cons] at this; omega⟩)
    else itemsUntil item close s

/-- `"key": value` with blanks around each part. -/
def member (value : Reader α) : Reader (String × α) := fun s =>
  match h : dropBlanks s with
  | '"' :: t =>
    match stringBody t with
    | none => none
    | some (k, r) =>
      match h' : dropBlanks r.1 with
      | ':' :: u =>
        match value u with
        | none => none
        | some (v, w) =>
          some ((String.ofList k, v), w.widen (by
            have := length_dropBlanks_le s
            have := length_dropBlanks_le r.1
            have := r.2
            rw [h, List.length_cons] at *
            rw [h', List.length_cons] at *
            omega))
      | _ => none
  | _ => none

/-! ## Values -/

/-- The rest after a fixed word. -/
def word (w : List Char) (s : List Char) : Option { r : List Char // r.length ≤ s.length } :=
  match w, s with
  | [], s => some ⟨s, Nat.le_refl _⟩
  | a :: w, c :: s =>
    if a = c then (word w s).map fun r => ⟨r.1, Nat.le_succ_of_le r.2⟩ else none
  | _ :: _, [] => none

/-- The value that starts with `c`, where `r` is the text after it. There are containers as
long as there is a reader for what is in them. -/
def valueFrom (item : Option (Reader Json)) (c : Char) (r : List Char) :
    Option (Json × Shorter (c :: r)) :=
  match item, c with
  | _, '"' => (stringBody r).map fun (cs, t) =>
    (.str (String.ofList cs), t.widen (Nat.le_succ _))
  | _, 'n' => (word "ull".toList r).map fun t => (.null, ⟨t.1, Nat.lt_succ_of_le t.2⟩)
  | _, 't' => (word "rue".toList r).map fun t => (.bool true, ⟨t.1, Nat.lt_succ_of_le t.2⟩)
  | _, 'f' => (word "alse".toList r).map fun t => (.bool false, ⟨t.1, Nat.lt_succ_of_le t.2⟩)
  | some item, '[' => (bracketed item ']' r).map fun (vs, t) => (.arr vs, t.widen (Nat.le_succ _))
  | some item, '{' => (bracketed (member item) '}' r).map fun (fs, t) =>
    (mkObj fs, t.widen (Nat.le_succ _))
  | _, c =>
    match h : Numeral.number? (c :: r) with
    | none => none
    | some (n, t) => some (.num n, ⟨t, Numeral.length_number? h⟩)

/-- A value after blanks. -/
def valueOf (item : Option (Reader Json)) : Reader Json := fun s =>
  match h : dropBlanks s with
  | [] => none
  | c :: r => (valueFrom item c r).map fun (v, t) =>
    (v, t.widen (by have := length_dropBlanks_le s; rwa [h] at this))

/-- A value in which containers nest at most so deep. -/
def value : Nat → Reader Json
  | 0 => valueOf none
  | depth + 1 => valueOf (some (value depth))

/-- How deep containers may nest. -/
def nestingLimit : Nat := 127

/-- The value that a text holds, with nothing but blanks around it. -/
def read? (s : String) : Option Json := do
  let (v, rest) ← value nestingLimit s.toList
  if dropBlanks rest.1 = [] then pure v else none

end LanguageHub.Json
