import LanguageHub.Config.Value
import LanguageHub.Event.Timestamp

/-!
# TOML documents

A document is a sequence of statements: `key = value`, `[table]` and `[[table]]`. Each is
read on its own and then put into the tree, where no key may be defined twice. Points in
time are read for validity and kept as text.
-/

namespace LanguageHub.Toml

/-! ## Characters -/

def isControl (c : Char) : Bool := (c.toNat < 32 ∧ c ≠ '\t') ∨ c.toNat = 127

def isSpace (c : Char) : Bool := c = ' ' ∨ c = '\t'

def dropSpaces (s : List Char) : List Char := s.dropWhile isSpace

def isBareKeyChar (c : Char) : Bool := ConfigValue.isNameChar c

/-- The rest after a line break. -/
def newline? : List Char → Option (List Char)
  | '\n' :: r => some r
  | '\r' :: '\n' :: r => some r
  | _ => none

/-- The rest after a comment, which has no control characters. -/
def dropComment? : List Char → Option (List Char)
  | '#' :: r =>
    let body := r.takeWhile fun c => c ≠ '\n' ∧ c ≠ '\r'
    if body.any isControl then none else some (r.drop body.length)
  | s => some s

/-- The rest after spaces, comments and line breaks, for at most `fuel` of the breaks. -/
def dropFiller? : Nat → List Char → Option (List Char)
  | 0, s => some s
  | fuel + 1, s => do
    let s ← dropComment? (dropSpaces s)
    match newline? s with
    | some r => dropFiller? fuel r
    | none => pure s

/-- The rest of a line after a statement: spaces and a comment. -/
def endOfLine? (s : List Char) : Option (List Char) := do
  let s ← dropComment? (dropSpaces s)
  match s with
  | [] => pure []
  | s => newline? s

/-! ## Strings -/

/-- A code point given by exactly `digits` hexadecimal digits. -/
def codePoint? (digits : Nat) (s : List Char) : Option (Char × List Char) := do
  let ds := s.take digits
  if ds.length ≠ digits then none
  let values ← ds.mapM fun c =>
    if Text.isDigit c then some (c.toNat - '0'.toNat)
    else if 'a' ≤ c ∧ c ≤ 'f' then some (c.toNat - 'a'.toNat + 10)
    else if 'A' ≤ c ∧ c ≤ 'F' then some (c.toNat - 'A'.toNat + 10)
    else none
  let n := values.foldl (fun acc d => acc * 16 + d) 0
  if n < 0xD800 ∨ (0xE000 ≤ n ∧ n < 0x110000) then pure (Char.ofNat n, s.drop digits) else none

/-- The character after a backslash. -/
def escape? : List Char → Option (Char × List Char)
  | 'b' :: r => some ('\x08', r)
  | 't' :: r => some ('\t', r)
  | 'n' :: r => some ('\n', r)
  | 'f' :: r => some ('\x0c', r)
  | 'r' :: r => some ('\r', r)
  | 'e' :: r => some ('\x1b', r)
  | '"' :: r => some ('"', r)
  | '\\' :: r => some ('\\', r)
  | 'x' :: r => codePoint? 2 r
  | 'u' :: r => codePoint? 4 r
  | 'U' :: r => codePoint? 8 r
  | _ => none

/-- The inside of a string on one line, up to its closing quote. -/
def basicBody? : Nat → List Char → Option (List Char × List Char)
  | 0, _ => none
  | _, '"' :: r => some ([], r)
  | fuel + 1, '\\' :: r => do
    let (c, r) ← escape? r
    let (cs, r) ← basicBody? fuel r
    pure (c :: cs, r)
  | fuel + 1, c :: r => do
    if isControl c then none
    let (cs, r) ← basicBody? fuel r
    pure (c :: cs, r)
  | _, [] => none

def literalBody? (s : List Char) : Option (List Char × List Char) :=
  let body := s.takeWhile (· ≠ '\'')
  match s.drop body.length with
  | _ :: r => if body.any isControl then none else some (body, r)
  | [] => none

/-- After a backslash at the end of a line everything blank is skipped. -/
def continued? (s : List Char) : Option (List Char) := do
  let r ← newline? (dropSpaces s)
  pure (r.dropWhile fun c => isSpace c ∨ c = '\n' ∨ c = '\r')

/-- The inside of a string over many lines, up to three quotes; one or two more belong to it. -/
def manyLines? (quote : Char) (escapes : Bool) : Nat → List Char → Option (List Char × List Char)
  | 0, _ => none
  | _, [] => none
  | fuel + 1, c :: r =>
    if c = quote then
      match r with
      | a :: b :: t =>
        if a = quote ∧ b = quote then
          match t with
          | d :: e :: u =>
            if d = quote ∧ e = quote then some ([quote, quote], u)
            else if d = quote then some ([quote], e :: u)
            else some ([], t)
          | [d] => if d = quote then some ([quote], []) else some ([], t)
          | [] => some ([], [])
        else (manyLines? quote escapes fuel r).map fun (cs, u) => (c :: cs, u)
      | _ => none
    else if escapes ∧ c = '\\' then
      match continued? r with
      | some t => manyLines? quote escapes fuel t
      | none => do
        let (d, t) ← escape? r
        let (cs, u) ← manyLines? quote escapes fuel t
        pure (d :: cs, u)
    else
      match newline? (c :: r) with
      | some t => (manyLines? quote escapes fuel t).map fun (cs, u) => ('\n' :: cs, u)
      | none =>
        if isControl c then none
        else (manyLines? quote escapes fuel r).map fun (cs, u) => (c :: cs, u)

/-- A string in any of its four forms. A line break right after three quotes does not count. -/
def string? (s : List Char) : Option (List Char × List Char) :=
  match s with
  | '"' :: '"' :: '"' :: r => manyLines? '"' true (r.length + 1) ((newline? r).getD r)
  | '\'' :: '\'' :: '\'' :: r => manyLines? '\'' false (r.length + 1) ((newline? r).getD r)
  | '"' :: r => basicBody? (r.length + 1) r
  | '\'' :: r => literalBody? r
  | _ => none

/-! ## Keys -/

/-- One part of a key, bare or quoted on one line. -/
def keyPart? (s : List Char) : Option (String × List Char) :=
  match s with
  | '"' :: r => (basicBody? (r.length + 1) r).map fun (cs, t) => (String.ofList cs, t)
  | '\'' :: r => (literalBody? r).map fun (cs, t) => (String.ofList cs, t)
  | s =>
    let name := s.takeWhile isBareKeyChar
    if name.isEmpty then none else some (String.ofList name, s.drop name.length)

/-- The parts of a dotted key, with spaces around the points. -/
def key? : Nat → List Char → Option (List String × List Char)
  | 0, _ => none
  | fuel + 1, s => do
    let (part, r) ← keyPart? (dropSpaces s)
    match dropSpaces r with
    | '.' :: t => do
      let (parts, u) ← key? fuel t
      pure (part :: parts, u)
    | t => pure ([part], t)

/-! ## Numbers -/

/-- Digits of a base with single underscores between them. -/
def digits? (isDigit : Char → Bool) : List Char → Option (List Char)
  | [] => none
  | [c] => if isDigit c then some [c] else none
  | c :: '_' :: rest =>
    if isDigit c then (digits? isDigit rest).map (c :: ·) else none
  | c :: rest =>
    if isDigit c then (digits? isDigit rest).map (c :: ·) else none

def hexDigit (c : Char) : Bool :=
  Text.isDigit c ∨ ('a' ≤ c ∧ c ≤ 'f') ∨ ('A' ≤ c ∧ c ≤ 'F')

def digitValue (c : Char) : Nat :=
  if Text.isDigit c then c.toNat - '0'.toNat
  else if 'a' ≤ c then c.toNat - 'a'.toNat + 10
  else c.toNat - 'A'.toNat + 10

def valueIn (base : Nat) (ds : List Char) : Nat := ds.foldl (fun n c => n * base + digitValue c) 0

def signed? (n : Int) : Option ConfigValue :=
  if Int64.minValue.toInt ≤ n ∧ n ≤ Int64.maxValue.toInt then some (.int n) else none

/-- The sign of a number and its text without it. -/
def sign (s : List Char) : Bool × List Char :=
  match s with
  | '-' :: r => (true, r)
  | '+' :: r => (false, r)
  | r => (false, r)

/-- Digits where a zero in front stands alone. -/
def plainDigits? (s : List Char) : Option (List Char) := do
  let ds ← digits? Text.isDigit s
  if ds.head? = some '0' ∧ 1 < ds.length then none else pure ds

def floatOf (negative : Bool) (digits : Nat) (exponent : Int) : UInt64 :=
  let x :=
    if 0 ≤ exponent then Float.ofScientific digits false exponent.toNat
    else Float.ofScientific digits true (-exponent).toNat
  (if negative then -x else x).toBits

/-- The largest power of ten that is tried. -/
def clampExponent (e : Int) : Int := max (-100000) (min 100000 e)

/-- A number with a point, an exponent or both. -/
def float? (s : List Char) : Option ConfigValue := do
  let (negative, r) := sign s
  if r = "inf".toList then
    return .float (if negative then -(1.0 / 0.0) else 1.0 / 0.0 : Float).toBits
  if r = "nan".toList then
    return .float (if negative then 0xfff8000000000000 else 0x7ff8000000000000)
  let mantissa := r.takeWhile fun c => c ≠ 'e' ∧ c ≠ 'E'
  let exponent ← match r.drop mantissa.length with
    | [] => some 0
    | _ :: e => do
      let (down, t) := sign e
      let ds ← digits? Text.isDigit t
      let n : Int := valueIn 10 ds
      pure (if down then -n else n)
  let whole := mantissa.takeWhile (· ≠ '.')
  let ds ← plainDigits? whole
  let fraction ← match mantissa.drop whole.length with
    | [] => if mantissa.length = r.length then none else some []
    | _ :: f => digits? Text.isDigit f
  let bits := floatOf negative (valueIn 10 (ds ++ fraction))
    (clampExponent (exponent - fraction.length))
  if Binary64.isFinite bits then pure (.float bits) else none

def integer? (s : List Char) : Option ConfigValue :=
  match s with
  | '0' :: 'x' :: r => (digits? hexDigit r).bind fun ds => signed? (valueIn 16 ds)
  | '0' :: 'o' :: r =>
    (digits? (fun c => '0' ≤ c ∧ c ≤ '7') r).bind fun ds => signed? (valueIn 8 ds)
  | '0' :: 'b' :: r =>
    (digits? (fun c => c = '0' ∨ c = '1') r).bind fun ds => signed? (valueIn 2 ds)
  | s => do
    let (negative, r) := sign s
    let ds ← plainDigits? r
    let n : Int := valueIn 10 ds
    signed? (if negative then -n else n)

/-! ## Points in time -/

def twoDigits? : List Char → Option (Nat × List Char)
  | a :: b :: r =>
    if Text.isDigit a ∧ Text.isDigit b then some (valueIn 10 [a, b], r) else none
  | _ => none

def date? (s : List Char) : Option (String × List Char) := do
  let year := s.take 4
  if year.length ≠ 4 ∨ !year.all Text.isDigit then none
  let '-' :: r := s.drop 4 | none
  let (month, r) ← twoDigits? r
  let '-' :: r := r | none
  let (day, r) ← twoDigits? r
  let d : Timestamp.Date := ⟨valueIn 10 year, month, day⟩
  if d.isValid then
    pure (String.ofList year ++ "-" ++ Timestamp.padded 2 month ++ "-" ++ Timestamp.padded 2 day, r)
  else none

/-- The decimals of a second, nine of them at most, without zeros at the end. -/
def secondFraction? (s : List Char) : Option (String × List Char) :=
  match s with
  | '.' :: r =>
    let ds := r.takeWhile Text.isDigit
    if ds.isEmpty then none
    else
      let kept := (((ds.take 9).reverse.dropWhile (· = '0')).reverse)
      some ("." ++ String.ofList (if kept.isEmpty then ['0'] else kept), r.drop ds.length)
  | r => some ("", r)

/-- A time of day; the seconds may be missing. -/
def time? (s : List Char) : Option (String × List Char) := do
  let (hour, r) ← twoDigits? s
  let ':' :: r := r | none
  let (minute, r) ← twoDigits? r
  if 24 ≤ hour ∨ 60 ≤ minute then none
  let start := Timestamp.padded 2 hour ++ ":" ++ Timestamp.padded 2 minute
  match r with
  | ':' :: r => do
    let (second, r) ← twoDigits? r
    if 60 < second then none
    let (fraction, r) ← secondFraction? r
    pure (start ++ ":" ++ Timestamp.padded 2 second ++ fraction, r)
  | r => pure (start, r)

def offset? (s : List Char) : Option (String × List Char) :=
  match s with
  | 'Z' :: r => some ("Z", r)
  | 'z' :: r => some ("Z", r)
  | c :: r =>
    if c = '+' ∨ c = '-' then do
      let (hour, r) ← twoDigits? r
      let ':' :: r := r | none
      let (minute, r) ← twoDigits? r
      if 24 < hour ∨ 60 ≤ minute then none
      pure (String.singleton c ++ Timestamp.padded 2 hour ++ ":" ++ Timestamp.padded 2 minute, r)
    else some ("", s)
  | [] => some ("", [])

/-- A date, a time, or both with or without an offset, and what is left. -/
def moment? (s : List Char) : Option (String × List Char) :=
  match date? s with
  | some (d, c :: r) =>
    if (c = 'T' ∨ c = 't' ∨ c = ' ') ∧ (r.head?.any Text.isDigit) then do
      let (t, r) ← time? r
      let (o, r) ← offset? r
      pure (d ++ "T" ++ t ++ o, r)
    else if c = 'T' ∨ c = 't' then none
    else some (d, c :: r)
  | some (d, []) => some (d, [])
  | none => time? s

/-! ## Values -/

/-- What a number, a word or a date is made of. -/
def isScalarChar (c : Char) : Bool := isBareKeyChar c ∨ c = '+' ∨ c = '.' ∨ c = ':'

def looksLikeMoment (s : List Char) : Bool :=
  match s with
  | a :: b :: ':' :: _ => Text.isDigit a && Text.isDigit b
  | a :: b :: c :: d :: '-' :: _ => [a, b, c, d].all Text.isDigit
  | _ => false

def scalar? (s : List Char) : Option (ConfigValue × List Char) :=
  if looksLikeMoment s then (moment? s).map fun (t, r) => (.text t, r)
  else
    let word := s.takeWhile isScalarChar
    let rest := s.drop word.length
    if word = "true".toList then some (.bool true, rest)
    else if word = "false".toList then some (.bool false, rest)
    else ((integer? word).or (float? word)).map (·, rest)

/-- How the keys of a table came to be there, which decides what may be added to it. -/
inductive Origin where
  /-- Only named in the header of a table below it. -/
  | implicit
  /-- Named in dotted keys. -/
  | dotted
  /-- Has a header of its own. -/
  | header
  /-- Written in braces, and complete. -/
  | inline
  deriving DecidableEq, Repr

inductive Node where
  | value (v : ConfigValue)
  | table (origin : Origin) (entries : List (String × Node))
  /-- Tables with double brackets, the latest first. -/
  | tables (items : List (List (String × Node)))
  deriving Repr, Inhabited

abbrev Entries := List (String × Node)

def lookup (key : String) : Entries → Option Node
  | [] => none
  | (k, n) :: rest => if k = key then some n else lookup key rest

/-- The entries with a key's node replaced, or put at the end. -/
def put (key : String) (node : Node) : Entries → Entries
  | [] => [(key, node)]
  | (k, n) :: rest => if k = key then (k, node) :: rest else (k, n) :: put key node rest

/-- Defines a dotted key. The table that it goes into comes from dotted keys; the way there may
lead through tables that only headers below them name. -/
def define? (node : Node) : List String → Entries → Option Entries
  | [], _ => none
  | [key], entries =>
    match lookup key entries with
    | some _ => none
    | none => some (entries ++ [(key, node)])
  | key :: rest, entries =>
    match lookup key entries with
    | none => (define? node rest []).map fun sub => entries ++ [(key, .table .dotted sub)]
    | some (.table .dotted sub) =>
      (define? node rest sub).map fun sub => put key (.table .dotted sub) entries
    | some (.table .implicit sub) =>
      if rest.length = 1 then none
      else (define? node rest sub).map fun sub => put key (.table .implicit sub) entries
    | some _ => none

mutual
/-- The value of a finished node. -/
def Node.toValue : Node → ConfigValue
  | .value v => v
  | .table _ entries => .table (entriesValue entries)
  | .tables items => .list (itemsValue items).reverse

def entriesValue : List (String × Node) → List (String × ConfigValue)
  | [] => []
  | (k, n) :: rest => (k, n.toValue) :: entriesValue rest

def itemsValue : List (List (String × Node)) → List ConfigValue
  | [] => []
  | entries :: rest => .table (entriesValue entries) :: itemsValue rest
end

/-- Items between commas and filler up to `close`, which may follow a comma. -/
def items? (item : List Char → Option (α × List Char)) (close : Char) :
    Nat → List Char → Option (List α × List Char)
  | 0, _ => none
  | fuel + 1, s => do
    let s ← dropFiller? s.length s
    match s with
    | [] => none
    | c :: r =>
      if c = close then pure ([], r)
      else
        let (v, t) ← item s
        let t ← dropFiller? t.length t
        match t with
        | [] => none
        | d :: u =>
          if d = close then pure ([v], u)
          else if d = ',' then do
            let (vs, w) ← items? item close fuel u
            pure (v :: vs, w)
          else none

/-- `key = value` inside a table. -/
def assignment? (value : List Char → Option (Node × List Char)) (s : List Char) :
    Option ((List String × Node) × List Char) := do
  let (key, r) ← key? (s.length + 1) s
  let '=' :: r := dropSpaces r | none
  let (v, r) ← value (dropSpaces r)
  pure ((key, v), r)

/-- How deep arrays and inline tables may nest. -/
def nestingLimit : Nat := 80

/-- A value at the front of a text, nested at most `depth` deep. -/
def value? : Nat → List Char → Option (Node × List Char)
  | depth, s =>
    match depth, s with
    | _, '"' :: _ => (string? s).map fun (cs, r) => (.value (.text (String.ofList cs)), r)
    | _, '\'' :: _ => (string? s).map fun (cs, r) => (.value (.text (String.ofList cs)), r)
    | depth + 1, '[' :: r => do
      let (vs, t) ← items? (value? depth) ']' (r.length + 1) r
      pure (.value (.list (vs.map Node.toValue)), t)
    | depth + 1, '\x7b' :: r => do
      let (pairs, t) ← items? (assignment? (value? depth)) '\x7d' (r.length + 1) r
      let entries ← pairs.foldlM (fun es (key, node) => define? node key es) []
      pure (.table .inline entries, t)
    | _, s => (scalar? s).map fun (v, r) => (.value v, r)

/-! ## Statements -/

inductive Statement where
  | assign (key : List String) (node : Node)
  | enter (key : List String)
  | append (key : List String)

def header? (s : List Char) : Option (List String × List Char) := key? (s.length + 1) s

def statement? (s : List Char) : Option (Statement × List Char) :=
  match s with
  | '[' :: '[' :: r => do
    let (key, t) ← header? r
    let ']' :: ']' :: t := t | none
    let t ← endOfLine? t
    pure (.append key, t)
  | '[' :: r => do
    let (key, t) ← header? r
    let ']' :: t := t | none
    let t ← endOfLine? t
    pure (.enter key, t)
  | s => do
    let ((key, node), t) ← assignment? (value? nestingLimit) s
    let t ← endOfLine? t
    pure (.assign key node, t)

def statements? : Nat → List Char → Option (List Statement)
  | 0, _ => none
  | fuel + 1, s => do
    let s ← dropFiller? (s.length + 1) s
    if s.isEmpty then pure []
    else
      let (st, r) ← statement? s
      let rest ← statements? fuel r
      pure (st :: rest)

/-! ## The tree -/

/-- Changes the entries that a header's path leads to, through the latest of repeated tables. -/
def descend? (f : Entries → Option Entries) : List String → Entries → Option Entries
  | [], entries => f entries
  | key :: rest, entries =>
    match lookup key entries with
    | none => (descend? f rest []).map fun sub => entries ++ [(key, .table .implicit sub)]
    | some (.table .inline _) => none
    | some (.table origin sub) =>
      (descend? f rest sub).map fun sub => put key (.table origin sub) entries
    | some (.tables (last :: earlier)) =>
      (descend? f rest last).map fun last => put key (.tables (last :: earlier)) entries
    | some _ => none

def openTable? (key : String) (entries : Entries) : Option Entries :=
  match lookup key entries with
  | none => some (entries ++ [(key, .table .header [])])
  | some (.table .implicit sub) => some (put key (.table .header sub) entries)
  | some _ => none

def appendTable? (key : String) (entries : Entries) : Option Entries :=
  match lookup key entries with
  | none => some (entries ++ [(key, .tables [[]])])
  | some (.tables items) => some (put key (.tables ([] :: items)) entries)
  | some _ => none

/-- The tree and the path of the table that assignments go to. -/
def build? : List Statement → List String → Entries → Option Entries
  | [], _, root => some root
  | .assign key node :: rest, here, root => do
    let root ← descend? (define? node key) here root
    build? rest here root
  | .enter key :: rest, _, root => do
    let root ← descend? (openTable? (key.getLast?.getD "")) key.dropLast root
    build? rest key root
  | .append key :: rest, _, root => do
    let root ← descend? (appendTable? (key.getLast?.getD "")) key.dropLast root
    build? rest key root

/-- The table that a document holds. A byte order mark in front does not count. -/
def read? (document : String) : Option (List (String × ConfigValue)) := do
  let s := match document.toList with
    | '\ufeff' :: r => r
    | r => r
  let statements ← statements? (s.length + 1) s
  let root ← build? statements [] []
  pure (entriesValue root)

end LanguageHub.Toml
