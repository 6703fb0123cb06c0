import LanguageHub.Text.Quoted

/-!
# Languages

A language may be derived from another one, and that from a third; a server for the base
also serves what is derived from it. A language is known by its id.
-/

namespace LanguageHub

/-- A language id and the ids of the languages it is derived from, nearest first. -/
structure Language where
  id : String
  bases : List String
  deriving DecidableEq, Repr, Inhabited

namespace Language

def plain (id : String) : Language := ⟨id, []⟩

/-- The language with this id and these bases; nothing without an id. -/
def ofChain? : List String → Option Language
  | [] => none
  | id :: bases => some ⟨id, bases⟩

def base? (l : Language) : Option Language := ofChain? l.bases

/-- The id and those of all bases. -/
def ancestry (l : Language) : List String := l.id :: l.bases

/-- The other language is this one or a base of it. -/
def isKindOf (l other : Language) : Bool := l.ancestry.contains other.id

def shown (l : Language) : String := "Language(" ++ " < ".intercalate l.ancestry ++ ")"

end Language

end LanguageHub
