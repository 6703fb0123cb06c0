import LanguageHub.Merge.Polling
import LanguageHub.Simulation.World

/-!
# An editor on the bench

An editor in a world: the documents that it has open, the calls that it started in the
background, and what it has been shown so far.
-/

namespace LanguageHub.Simulation

structure OpenDocument where
  document : DocumentRef
  buffer : Buffer
  deriving Repr, Inhabited

/-- A call in the background. -/
structure StartedCall where
  slot : Nat
  task : Nat
  cancellation : Option Nat
  began : Duration
  isAborted : Bool
  deriving Repr, Inhabited

structure Bench where
  world : World
  documents : List (String × OpenDocument)
  /-- The calls by name, the latest first. -/
  calls : List (String × StartedCall)
  cancellations : List (String × Nat)
  /-- How many messages, events and outcomes were shown. -/
  shownMessages : Nat
  shownEvents : Nat
  shownOutcomes : Nat

namespace Bench

def ofWorld (world : World) : Bench := ⟨world, [], [], [], 0, 0, 0⟩

def hub (b : Bench) : Hub := b.world.hub

def modifyHub (f : Hub → Hub) (b : Bench) : Bench := { b with world := b.world.modifyHub f }

def fromHub (f : Hub → α × Hub) (b : Bench) : α × Bench :=
  let (a, world) := b.world.fromHub f
  (a, { b with world })

/-- Runs a program in the foreground. -/
def run (p : Program α) (b : Bench) : Option α × Bench :=
  let (a, world) := b.world.run p
  (a, { b with world })

def pass (d : Duration) (b : Bench) : Bench := { b with world := b.world.pass d }

/-- The time that passed since a moment. -/
def since (began : Duration) (b : Bench) : Duration := ⟨b.hub.clock.nanos - began.nanos⟩

/-! ## Calls in the background -/

def addCall (name : String) (task : Nat) (cancellation : Option Nat) (b : Bench) : Bench :=
  { b with calls := (name, ⟨b.calls.length, task, cancellation, b.hub.clock, false⟩) :: b.calls }

/-- Starts a call. -/
def begin (name : String) (call : Call) (cancellation : Option Nat) (b : Bench) : Bench :=
  let (task, world) := b.world.start (.call b.calls.length call)
  addCall name task cancellation { b with world }

/-- A call that failed before it started. -/
def refuse (name : String) (e : HubError) (b : Bench) : Bench :=
  addCall name b.world.machine.nextTask none
    (b.modifyHub (Hub.finish b.calls.length (.value (.error e))))

/-- The cancellation with a name, made when it is new. -/
def cancellationNamed (name : String) (b : Bench) : Nat × Bench :=
  match List.lookup name b.cancellations with
  | some c => (c, b)
  | none =>
    let (c, b) := b.fromHub Hub.newCancellation
    (c, { b with cancellations := (name, c) :: b.cancellations })

/-- Drops a call. -/
def abort (name : String) (b : Bench) : Bench :=
  match List.lookup name b.calls with
  | none => b
  | some call =>
    { b with
      world := b.world.abort call.task
      calls := b.calls.map fun (n, c) =>
        (n, if c.slot == call.slot then { c with isAborted := true } else c) }

def outcomeOf (call : StartedCall) (h : Hub) : Option (Outcome × Duration) :=
  List.lookup call.slot h.outcomes

/-- Waits until a call is over; what it came to and how long it took. -/
def finish (call : StartedCall) (b : Bench) : Option (Outcome × Duration) × Bench :=
  let wait : Program Unit := Routine.waitUntil fun h => (outcomeOf call h).isSome
  let (_, b) := b.run wait
  ((outcomeOf call b.hub).map fun (o, time) => (o, ⟨time.nanos - call.began.nanos⟩), b)

/-! ## Documents -/

def document? (name : String) (b : Bench) : Option OpenDocument := List.lookup name b.documents

def putDocument (name : String) (d : OpenDocument) (b : Bench) : Bench :=
  { b with documents := (name, d) :: b.documents.filter (·.1 != name) }

/-- A document of the editor's own, which no server has yet. -/
def openDocument (name path : String) (language : Language) (text : String) (b : Bench) :
    Except HubError (OpenDocument × Bench) :=
  (DocumentRef.ofPath path language).map fun document =>
    let d : OpenDocument := ⟨document, ⟨text⟩⟩
    (d, b.putDocument name d)

/-- Makes an edit and shows it to the servers before and after it. -/
def edit (name : String) (d : OpenDocument) (e : Edit) (b : Bench) :
    Except EditFault Buffer × Bench :=
  let b := b.modifyHub (Hub.beforeChange d.document.uri d.buffer e)
  let outcome := d.buffer.apply e
  let buffer := match outcome with
    | .ok buffer => buffer
    | .error _ => d.buffer
  let b := b.modifyHub (Hub.afterChange d.document.uri buffer)
  (outcome, b.putDocument name { d with buffer })

/-! ## Requests -/

/-- Asks for a feature while the editor may cancel from a question on. -/
def request (feature : Feature) (d : OpenDocument) (cancelsFrom : Option Nat) (b : Bench) :
    Option (Except HubError (Merged Json)) × Bench :=
  let (r, b) := b.fromHub (FeatureRequest.new feature d.document)
  let b := b.modifyHub fun h => { h with host := ⟨0, cancelsFrom⟩ }
  b.run (if cancelsFrom.isSome then CancelCheck.host.watch r.cancellation r.run else r.run)

/-- Asks for a feature in the background. -/
def requestLater (name : String) (feature : Feature) (d : OpenDocument) (b : Bench) : Bench :=
  let (r, b) := b.fromHub (FeatureRequest.new feature d.document)
  b.begin name (.ask r) (some r.cancellation)

/-! ## What is shown -/

/-- The messages that peers got since the last time. -/
def newMessages (b : Bench) : List (String × Message) := b.world.log.drop b.shownMessages

/-- The events that were reported since the last time. -/
def newEvents (b : Bench) : List EventKind :=
  (b.hub.events.channel.drain b.shownEvents).1.filterMap fun
    | .item e => some e.kind
    | _ => none

/-- The calls that ended since the last time, with what they came to and how long they took. -/
def newOutcomes (b : Bench) : List (String × Outcome × Duration) :=
  (b.hub.outcomes.drop b.shownOutcomes).filterMap fun (slot, outcome, time) =>
    (b.calls.find? fun (_, c) => c.slot == slot).map fun (name, c) =>
      (name, outcome, ⟨time.nanos - c.began.nanos⟩)

/-- All of it was shown. -/
def shown (b : Bench) : Bench :=
  { b with
    shownMessages := b.world.log.length
    shownEvents := b.hub.events.channel.sent
    shownOutcomes := b.hub.outcomes.length }

/-- The latest link of a peer. -/
def linkNamed? (key : String) (b : Bench) : Option Nat :=
  (b.world.peers.zipIdx.filter fun (p, _) => p.key == key).getLast?.map (·.2)

end Bench

end LanguageHub.Simulation
