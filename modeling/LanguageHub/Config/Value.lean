import LanguageHub.Json.Printer
import LanguageHub.Text.Split

/-!
# Configuration values

Values come from files of several formats and from the environment, so a setting is
often not written in the type it has: text stands for numbers and truth values, numbers
for text, and fractions are rounded. Later sources win; tables are merged key by key.
-/

namespace LanguageHub

inductive ConfigValue where
  | nothing
  | bool (b : Bool)
  | int (n : Int)
  | float (bits : UInt64)
  | text (s : String)
  | list (items : List ConfigValue)
  | table (entries : List (String × ConfigValue))
  deriving Repr, Inhabited

namespace ConfigValue

/-! ## Numbers as text -/

/-- A fraction without exponent: as many digits as it needs, and no point without a fraction. -/
def floatText (bits : UInt64) : String :=
  let sign := if Binary64.isNegative bits then "-" else ""
  if !Binary64.isFinite bits then
    if Binary64.fractionField bits = 0 then sign ++ "inf" else "NaN"
  else
    let d := Binary64.shortest (Binary64.magnitude bits)
    let digits := Json.naturalText d.digits
    let point : Int := digits.length + d.exponent
    let shown :=
      if 0 ≤ d.exponent then digits ++ List.replicate d.exponent.toNat '0'
      else if 0 < point then digits.take point.toNat ++ '.' :: digits.drop point.toNat
      else '0' :: '.' :: List.replicate (-point).toNat '0' ++ digits
    sign ++ String.ofList shown

/-- The nearest whole number, a half away from zero, within the bounds; nothing counts as zero. -/
def rounded (bits : UInt64) (low high : Int) : Int :=
  let clamp (n : Int) := max low (min high n)
  if !Binary64.isFinite bits then
    if Binary64.fractionField bits ≠ 0 then clamp 0
    else if Binary64.isNegative bits then low else high
  else
    let m := Binary64.magnitude bits
    let n : Nat := (m.mantissa * Nat.pow 2 m.scale * 2 + Nat.pow 2 1074) / Nat.pow 2 1075
    clamp (if Binary64.isNegative bits then -(n : Int) else (n : Int))

/-! ## Coercions -/

def lowerText (s : String) : String := String.ofList (Text.lowered s.toList)

def toBool? : ConfigValue → Option Bool
  | bool b => some b
  | int n => some (n != 0)
  | float bits => some (!Binary64.isZero bits)
  | text s =>
    let s := lowerText s
    if s ∈ ["1", "true", "on", "yes"] then some true
    else if s ∈ ["0", "false", "off", "no"] then some false
    else none
  | _ => none

/-- A whole number between two bounds. -/
def toInt? (low high : Int) : ConfigValue → Option Int
  | bool b => some (if b then 1 else 0)
  | int n => if low ≤ n ∧ n ≤ high then some n else none
  | float bits => some (rounded bits low high)
  | text s =>
    let l := lowerText s
    if l ∈ ["true", "on", "yes"] then some 1
    else if l ∈ ["false", "off", "no"] then some 0
    else
      match s.toList with
      | '-' :: _ => if low < 0 then inBounds (Text.integer? s.toList) else none
      | cs => inBounds (Text.integer? cs)
  | _ => none
where
  inBounds (n : Option Int) : Option Int := n.filter fun n => low ≤ n ∧ n ≤ high

def toUnsigned? (v : ConfigValue) : Option Nat := (v.toInt? 0 (UInt64.size - 1)).map Int.toNat

def toSigned? (v : ConfigValue) : Option Int := v.toInt? Int64.minValue.toInt Int64.maxValue.toInt

def toText? : ConfigValue → Option String
  | bool b => some (toString b)
  | int n => some (toString n)
  | float bits => some (floatText bits)
  | text s => some s
  | _ => none

/-- One of a few words, also as a table with the word as its only key. -/
def toWord? (choices : List String) : ConfigValue → Option String
  | text s => if s ∈ choices then some s else none
  | table [(s, _)] => if s ∈ choices then some s else none
  | _ => none

mutual
/-- The value as JSON, where a number that JSON does not have becomes null. -/
def toJson : ConfigValue → Json
  | nothing => .null
  | bool b => .bool b
  | int n => .num (.int n)
  | float bits => if Binary64.isFinite bits then .num (.double bits) else .null
  | text s => .str s
  | list items => .arr (itemsJson items)
  | table entries => .mkObj (entriesJson entries)

def itemsJson : List ConfigValue → List Json
  | [] => []
  | v :: vs => v.toJson :: itemsJson vs

def entriesJson : List (String × ConfigValue) → List (String × Json)
  | [] => []
  | (k, v) :: rest => (k, v.toJson) :: entriesJson rest
end

mutual
/-- JSON as a configuration value; integers beyond 64 signed bits become floats. -/
def ofJson : Json → ConfigValue
  | .null => nothing
  | .bool b => bool b
  | .num (.int n) => if n ≤ Int64.maxValue.toInt then int n else float (Float.ofInt n).toBits
  | .num (.double bits) => float bits
  | .str s => text s
  | .arr items => list (ofItems items)
  | .obj fields => table (ofFields fields)

def ofItems : List Json → List ConfigValue
  | [] => []
  | v :: vs => ofJson v :: ofItems vs

def ofFields : List (String × Json) → List (String × ConfigValue)
  | [] => []
  | (k, v) :: rest => (k, ofJson v) :: ofFields rest
end

/-! ## Merging -/

/-- The entries with a key set. -/
def setEntry (key : String) (f : Option ConfigValue → ConfigValue) :
    List (String × ConfigValue) → List (String × ConfigValue)
  | [] => [(key, f none)]
  | (k, v) :: rest => if k = key then (k, f (some v)) :: rest else (k, v) :: setEntry key f rest

def entriesOf : ConfigValue → List (String × ConfigValue)
  | table entries => entries
  | _ => []

mutual
/-- A value laid over what is there: tables key by key, everything else as a whole. -/
def laidOver (base : ConfigValue) : ConfigValue → ConfigValue
  | table [] =>
    match base with
    | nothing => table []
    | b => b
  | table (e :: es) => table (entriesOver base.entriesOf (e :: es))
  | v => v

def entriesOver (base : List (String × ConfigValue)) :
    List (String × ConfigValue) → List (String × ConfigValue)
  | [] => base
  | (k, v) :: rest => entriesOver (setEntry k (fun old => laidOver (old.getD nothing) v) base) rest
end

/-! ## Paths -/

/-- A step of a path: a key or an index, where a negative one counts from the end. -/
inductive PathStep where
  | key (name : String)
  | index (n : Int)
  deriving DecidableEq, Repr

def isNameChar (c : Char) : Bool :=
  ('a' ≤ c ∧ c ≤ 'z') ∨ ('A' ≤ c ∧ c ≤ 'Z') ∨ Text.isDigit c ∨ c = '_' ∨ c = '-'

/-- A piece between points: a name with indices in brackets. -/
def pathPiece? (piece : List Char) : Option (List PathStep) :=
  let name := piece.takeWhile isNameChar
  if name.isEmpty then none
  else
    match Text.splitOn '[' (piece.drop name.length) with
    | [] :: indices => do
      let steps ← indices.mapM fun i =>
        match i.reverse with
        | ']' :: digits => (Text.integer? digits.reverse).map PathStep.index
        | _ => none
      pure (.key (String.ofList name) :: steps)
    | _ => none

/-- The path that a key stands for; one that is no path stands for itself. -/
def pathOf (key : String) : List PathStep :=
  match (Text.splitOn '.' key.toList).mapM pathPiece? with
  | some pieces => pieces.flatten
  | none => [.key key]

/-- The place of an index in a list of this length, with how many places to put in front. -/
def place (n : Int) (length : Nat) : Nat × Nat :=
  if 0 ≤ n then (n.toNat, 0)
  else if n.natAbs ≤ length then (length - n.natAbs, 0)
  else (0, n.natAbs - length)

/-- Changes what is at a path, making the tables and lists on the way. -/
def atPath (f : ConfigValue → ConfigValue) : List PathStep → ConfigValue → ConfigValue
  | [], v => f v
  | .key name :: rest, v =>
    table (setEntry name (fun old => atPath f rest (old.getD nothing)) v.entriesOf)
  | .index n :: rest, v =>
    let items := match v with
      | list items => items
      | _ => []
    let (i, front) := place n items.length
    let padded := List.replicate front nothing ++ items ++
      List.replicate (i + 1 - (front + items.length)) nothing
    list (padded.set i (atPath f rest ((padded[i]?).getD nothing)))

/-- The entries of a source laid over what earlier sources gave. -/
def withSource (base : ConfigValue) (entries : List (String × ConfigValue)) : ConfigValue :=
  entries.foldl (fun v (key, value) => atPath (fun old => laidOver old value) (pathOf key) v) base

end ConfigValue

end LanguageHub
