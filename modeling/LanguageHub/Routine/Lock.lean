/-!
# Locks

A lock is held by one ticket at a time and goes to the others in the order in which they
came. A ticket that leaves, whether it holds the lock or still waits, is forgotten.
-/

namespace LanguageHub

structure Lock where
  holder : Option Nat
  /-- The tickets that wait, the oldest first. -/
  waiting : List Nat
  /-- The next ticket. -/
  next : Nat
  deriving DecidableEq, Repr, Inhabited

namespace Lock

def free : Lock := ⟨none, [], 0⟩

def isFree (l : Lock) : Bool := l.holder.isNone

/-- Comes for the lock with a new ticket. -/
def enter (l : Lock) : Nat × Lock :=
  match l.holder with
  | none => (l.next, { l with holder := some l.next, next := l.next + 1 })
  | some _ => (l.next, { l with waiting := l.waiting ++ [l.next], next := l.next + 1 })

def isHeldBy (l : Lock) (ticket : Nat) : Bool := l.holder == some ticket

/-- Gives the lock to the ticket that has waited longest. -/
def pass (l : Lock) : Lock := { l with holder := l.waiting.head?, waiting := l.waiting.tail }

def leave (l : Lock) (ticket : Nat) : Lock :=
  if l.isHeldBy ticket then l.pass else { l with waiting := l.waiting.filter (· != ticket) }

end Lock

end LanguageHub
