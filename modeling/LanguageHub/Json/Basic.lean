import LanguageHub.Json.Binary64

/-!
# JSON values

Objects hold their members in ascending order of key, each key once, so two objects
with the same members are the same value. Integers of 64 bits are exact and every
other number is a double.
-/

namespace LanguageHub

/-- A JSON number. An integer is between `-2^63` and `2^64 - 1`; a double is finite. -/
inductive JsonNumber where
  | int (value : Int)
  | double (bits : UInt64)
  deriving DecidableEq, Repr, Inhabited

/-- Numbers of one kind that are equal; an integer never equals a double. -/
def JsonNumber.same : JsonNumber → JsonNumber → Bool
  | .int a, .int b => a == b
  | .double a, .double b => Binary64.sameNumber a b
  | _, _ => false

inductive Json where
  | null
  | bool (value : Bool)
  | num (value : JsonNumber)
  | str (value : String)
  | arr (items : List Json)
  | obj (fields : List (String × Json))
  deriving Repr, Inhabited

namespace Json

/-! ## Equality -/

mutual
/-- Structural equality, with numbers compared by value. -/
def same : Json → Json → Bool
  | .null, .null => true
  | .bool a, .bool b => a == b
  | .num a, .num b => a.same b
  | .str a, .str b => a == b
  | .arr a, .arr b => sameItems a b
  | .obj a, .obj b => sameFields a b
  | _, _ => false

def sameItems : List Json → List Json → Bool
  | [], [] => true
  | a :: as, b :: bs => a.same b && sameItems as bs
  | _, _ => false

def sameFields : List (String × Json) → List (String × Json) → Bool
  | [], [] => true
  | (k, a) :: as, (l, b) :: bs => k == l && a.same b && sameFields as bs
  | _, _ => false
end

instance : BEq Json := ⟨same⟩

/-! ## Building -/

def ofNat (n : Nat) : Json := .num (.int n)

def ofInt (n : Int) : Json := .num (.int n)

/-- The value, or null when there is none. -/
def ofOption (f : α → Json) (value : Option α) : Json := (value.map f).getD .null

/-- Members with one more, at its place in the order; a key that is there gets the new value. -/
def insertField (key : String) (value : Json) : List (String × Json) → List (String × Json)
  | [] => [(key, value)]
  | (k, v) :: rest =>
    if key < k then (key, value) :: (k, v) :: rest
    else if key = k then (key, value) :: rest
    else (k, v) :: insertField key value rest

/-- The object with these members; of two with one key the later counts. -/
def mkObj (fields : List (String × Json)) : Json :=
  .obj (fields.foldl (fun acc (k, v) => insertField k v acc) [])

/-- The object with the members that have a value. -/
def mkSparse (fields : List (String × Option Json)) : Json :=
  mkObj (fields.filterMap fun (k, v) => v.map (k, ·))

def ofStrings (items : List String) : Json := .arr (items.map .str)

/-! ## Reading -/

def lookup (key : String) : List (String × Json) → Option Json
  | [] => none
  | (k, v) :: rest => if key = k then some v else lookup key rest

/-- The member of an object; nothing for any other value. -/
def get? (key : String) : Json → Option Json
  | .obj fields => lookup key fields
  | _ => none

def str? : Json → Option String
  | .str s => some s
  | _ => none

def bool? : Json → Option Bool
  | .bool b => some b
  | _ => none

def int? : Json → Option Int
  | .num (.int n) => some n
  | _ => none

def nat? : Json → Option Nat
  | .num (.int n) => if 0 ≤ n then some n.toNat else none
  | _ => none

def arr? : Json → Option (List Json)
  | .arr items => some items
  | _ => none

def isNull : Json → Bool
  | .null => true
  | _ => false

/-- A member that is there and not null. -/
def present? (key : String) (value : Json) : Option Json :=
  (value.get? key).filter (!·.isNull)

/-! ## Members of a kind -/

def textAt? (key : String) (v : Json) : Option String := (v.get? key).bind str?

def natAt? (key : String) (v : Json) : Option Nat := (v.get? key).bind nat?

def intAt? (key : String) (v : Json) : Option Int := (v.get? key).bind int?

def boolAt? (key : String) (v : Json) : Option Bool := (v.get? key).bind bool?

/-- The items of a list; none when there is no list. -/
def itemsAt (key : String) (v : Json) : List Json := ((v.get? key).bind arr?).getD []

/-- A list of texts and nothing else. -/
def strings? (v : Json) : Option (List String) := v.arr?.bind (·.mapM str?)

/-- The members of an object; none of another value. -/
def members : Json → List (String × Json)
  | obj fields => fields
  | _ => []

end Json

end LanguageHub
