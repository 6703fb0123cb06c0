import LanguageHub.Json.Basic
import LanguageHub.Uri

/-!
# Shapes of payloads

A schema says which JSON values a payload may be and how it is written again: members
that the shape does not know vanish, and so do optional members without a value. A
record may also come as an array of its fields in order.
-/

namespace LanguageHub

/-- What a missing or null member means. -/
inductive Presence where
  /-- It must be there. -/
  | required
  /-- It may be missing, and then it is not written. -/
  | optional
  /-- It may be missing, and then it is written as null. -/
  | nullable
  /-- It may be missing, at the end of an array too, and then it is written as null. -/
  | defaulted
  deriving DecidableEq, Repr

inductive Schema where
  | any
  | bool
  | string
  | uri
  /-- An integer between two bounds. -/
  | int (low high : Int)
  /-- One of a few words, also as an object from the word to null. -/
  | word (choices : List String)
  | list (item : Schema)
  /-- An array of exactly these items. -/
  | tuple (items : List Schema)
  /-- An object with these members or an array of them. -/
  | record (fields : List (String × Presence × Schema))
  /-- An object with these members. -/
  | object (fields : List (String × Presence × Schema))
  /-- An object with these members, where each other member has the shape `rest`. -/
  | openObject (fields : List (String × Presence × Schema)) (rest : Schema)
  /-- The first of these that fits. -/
  | oneOf (alternatives : List Schema)
  deriving Repr, Inhabited

namespace Schema

def int32 : Schema := .int Int32.minValue.toInt Int32.maxValue.toInt

def unsigned32 : Schema := .int 0 (UInt32.size - 1)

def int64 : Schema := .int Int64.minValue.toInt Int64.maxValue.toInt

/-- The word that a value stands for. -/
def wordOf : Json → Option String
  | .str s => some s
  | .obj [(s, .null)] => some s
  | _ => none

mutual
/-- The value in the form of the schema, when it fits. -/
def read? : Schema → Json → Option Json
  | .any, v => some v
  | .bool, .bool b => some (.bool b)
  | .bool, _ => none
  | .string, .str s => some (.str s)
  | .string, _ => none
  | .uri, .str s => if Uri.isValid s then some (.str s) else none
  | .uri, _ => none
  | .int low high, .num (.int n) =>
    if low ≤ n ∧ n ≤ high then some (.num (.int n)) else none
  | .int _ _, _ => none
  | .word choices, v => (wordOf v).bind fun s => if s ∈ choices then some (.str s) else none
  | .list item, .arr vs => (vs.mapM item.read?).map .arr
  | .list _, _ => none
  | .tuple items, .arr vs => (readTuple? items vs).map .arr
  | .tuple _, _ => none
  | .record fields, .obj members => (readMembers? fields members).map Json.mkObj
  | .record fields, .arr vs => (readOrdered? fields vs).map Json.mkObj
  | .record _, _ => none
  | .object fields, .obj members => (readMembers? fields members).map Json.mkObj
  | .object _, _ => none
  | .openObject fields rest, .obj members => do
    let known ← readMembers? fields members
    let others := members.filter fun (k, _) => !(fields.map (·.1)).contains k
    let values ← (others.map (·.2)).mapM rest.read?
    pure (.mkObj (known ++ (others.map (·.1)).zip values))
  | .openObject _ _, _ => none
  | .oneOf alternatives, v => readFirst? alternatives v
termination_by structural x => x

def readTuple? : List Schema → List Json → Option (List Json)
  | [], [] => some []
  | s :: ss, v :: vs => do
    let v ← s.read? v
    let vs ← readTuple? ss vs
    pure (v :: vs)
  | _, _ => none

def readFirst? : List Schema → Json → Option Json
  | [], _ => none
  | s :: ss, v => (s.read? v).or (readFirst? ss v)

/-- The members of an object, found by name. -/
def readMembers? : List (String × Presence × Schema) → List (String × Json) →
    Option (List (String × Json))
  | [], _ => some []
  | (name, presence, schema) :: fields, members => do
    let rest ← readMembers? fields members
    match presence, Json.lookup name members with
    | .required, none => none
    | .required, some v => do
      let v ← schema.read? v
      pure ((name, v) :: rest)
    | .optional, none | .optional, some .null => pure rest
    | .optional, some v => do
      let v ← schema.read? v
      pure ((name, v) :: rest)
    | _, none | _, some .null => pure ((name, .null) :: rest)
    | _, some v => do
      let v ← schema.read? v
      pure ((name, v) :: rest)

/-- The members as an array in the order of the fields. -/
def readOrdered? : List (String × Presence × Schema) → List Json →
    Option (List (String × Json))
  | [], [] => some []
  | (name, .defaulted, _) :: fields, [] => do
    let rest ← readOrdered? fields []
    pure ((name, .null) :: rest)
  | (name, presence, schema) :: fields, v :: vs => do
    let rest ← readOrdered? fields vs
    match presence, v with
    | .optional, .null => pure rest
    | .nullable, .null | .defaulted, .null => pure ((name, .null) :: rest)
    | _, v => do
      let v ← schema.read? v
      pure ((name, v) :: rest)
  | _, _ => none
end

/-- A value that may be null. -/
def readOption? (s : Schema) : Json → Option (Option Json)
  | .null => some none
  | v => (s.read? v).map some

end Schema

end LanguageHub
