/-!
# Broadcast channels

Every subscriber sees every item sent after it subscribed, as long as it keeps up: the
channel keeps only the latest items, and one that falls further behind is told how many
it missed and goes on with the oldest that is left.
-/

namespace LanguageHub

structure Broadcast (α : Type) where
  capacity : Nat
  /-- How many items were ever sent. -/
  sent : Nat
  /-- The latest items, oldest first. -/
  retained : List α
  deriving Repr, Inhabited

/-- What a subscriber receives. -/
inductive Received (α : Type) where
  | item (a : α)
  /-- That many items are gone. -/
  | lagged (missed : Nat)
  | empty
  deriving Repr, DecidableEq, Inhabited

namespace Broadcast

def new (capacity : Nat) : Broadcast α := ⟨capacity, 0, []⟩

def send (b : Broadcast α) (a : α) : Broadcast α :=
  let all := b.retained ++ [a]
  { b with sent := b.sent + 1, retained := all.drop (all.length - b.capacity) }

/-- The number of the oldest item that is left. -/
def oldest (b : Broadcast α) : Nat := b.sent - b.retained.length

/-- What a subscriber that has seen `cursor` items gets next, and how far it is then. -/
def receive (b : Broadcast α) (cursor : Nat) : Received α × Nat :=
  if cursor < b.oldest then (.lagged (b.oldest - cursor), b.oldest)
  else
    match b.retained[cursor - b.oldest]? with
    | some a => (.item a, cursor + 1)
    | none => (.empty, cursor)

/-- Everything that a subscriber can receive, for at most `fuel` receipts. -/
def drainFrom (b : Broadcast α) : Nat → Nat → List (Received α) × Nat
  | 0, cursor => ([], cursor)
  | fuel + 1, cursor =>
    match b.receive cursor with
    | (.empty, cursor) => ([], cursor)
    | (r, next) =>
      let (rest, stop) := drainFrom b fuel next
      (r :: rest, stop)

/-- Everything that a subscriber can receive. One notice of loss may come before the items. -/
def drain (b : Broadcast α) (cursor : Nat) : List (Received α) × Nat :=
  b.drainFrom (b.retained.length + 2) cursor

end Broadcast

end LanguageHub
