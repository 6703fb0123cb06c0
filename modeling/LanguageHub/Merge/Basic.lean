import LanguageHub.Error

/-!
# Merged answers

One request goes to several servers, and what they answer is put together in the order in
which they were asked: the contributions of those that answered and the failures of those
that did not. Nothing is lost: each request counts once.
-/

namespace LanguageHub

/-- What one server has to say. -/
structure Contribution (α : Type) where
  serverId : String
  items : List α
  deriving DecidableEq, Repr, Inhabited

/-- A server whose request failed. -/
structure ServerFailure where
  serverId : String
  error : HubError
  deriving DecidableEq, Repr

structure Merged (α : Type) where
  contributions : List (Contribution α)
  failures : List ServerFailure
  deriving DecidableEq, Repr, Inhabited

/-- What a server's request came to. -/
abbrev ServerAnswer (α : Type) := String × Except HubError (List α)

namespace Merged

def empty : Merged α := ⟨[], []⟩

def items (m : Merged α) : List α := m.contributions.flatMap (·.items)

/-- No server has anything to say. -/
def isEmpty (m : Merged α) : Bool := m.contributions.all (·.items.isEmpty)

/-- A server's answer before the others'. -/
def addFirst (a : ServerAnswer α) (m : Merged α) : Merged α :=
  match a with
  | (serverId, .ok items) => { m with contributions := ⟨serverId, items⟩ :: m.contributions }
  | (serverId, .error error) => { m with failures := ⟨serverId, error⟩ :: m.failures }

/-- The answers put together, in their order. -/
def ofAnswers (answers : List (ServerAnswer α)) : Merged α := answers.foldr addFirst empty

/-- The failures to report: a request that was cancelled is none. -/
def reported (m : Merged α) : List ServerFailure := m.failures.filter (!·.error.isCancelled)

def toJson (m : Merged Json) : Json :=
  .mkObj [
    ("contributions", .arr (m.contributions.map fun c =>
      .mkObj [("server", .str c.serverId), ("items", .arr c.items)])),
    ("failures", .arr (m.failures.map fun f =>
      .mkObj [("server", .str f.serverId), ("failure", f.error.toJson)])),
    ("is_empty", .bool m.isEmpty),
    ("count", .ofNat m.items.length)]

theorem length_ofAnswers (answers : List (ServerAnswer α)) :
    (ofAnswers answers).contributions.length + (ofAnswers answers).failures.length
      = answers.length := by
  induction answers with
  | nil => rfl
  | cons a rest ih =>
    obtain ⟨serverId, items | error⟩ := a <;>
      simp only [ofAnswers, List.foldr_cons, addFirst, List.length_cons] <;>
      simp only [ofAnswers] at ih <;> omega

end Merged

end LanguageHub
