import LanguageHub.Error
import LanguageHub.Wire.Message

/-!
# Cancelling requests

All requests of one call share a cancellation. Once it is cancelled it stays so. It knows
the requests that are under way, in the order in which they began.
-/

namespace LanguageHub

/-- A request that is under way. -/
structure PendingRequest where
  serverId : String
  method : String
  requestId : RequestId
  deriving DecidableEq, Repr, Inhabited

structure Cancellation where
  isCancelled : Bool
  /-- The requests under way with the tokens by which they end. -/
  tracked : List (Nat × PendingRequest)
  nextToken : Nat
  deriving DecidableEq, Repr, Inhabited

namespace Cancellation

def new : Cancellation := ⟨false, [], 1⟩

def cancel (c : Cancellation) : Cancellation := { c with isCancelled := true }

def check (c : Cancellation) : Except HubError Unit :=
  if c.isCancelled then .error .cancelled else .ok ()

/-- Notes a request that begins, and the token by which it ends. -/
def track (c : Cancellation) (r : PendingRequest) : Nat × Cancellation :=
  (c.nextToken, { c with tracked := c.tracked ++ [(c.nextToken, r)], nextToken := c.nextToken + 1 })

def untrack (c : Cancellation) (token : Nat) : Cancellation :=
  { c with tracked := c.tracked.filter (·.1 != token) }

/-- The requests under way. -/
def pending (c : Cancellation) : List PendingRequest := c.tracked.map (·.2)

def shown (c : Cancellation) : String :=
  s!"CancellationSupport \x7b cancelled: {c.isCancelled}, pending: {c.pending.length} \x7d"

end Cancellation

end LanguageHub
