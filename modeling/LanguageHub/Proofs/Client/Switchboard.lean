import LanguageHub.Proofs.Client.Standing

/-!
# A client's switchboard

Everything that runs on one client: the calls, the notices that others send, and the reader that
takes what the server sends from the link. They take turns in any order, and whatever happens
elsewhere may happen in between. The lineup keeps the place of each task instead of its program.

Laws: the switchboard goes as its lineup does, as long as the client is used.
-/

namespace LanguageHub

open Routine Client

namespace Switchboard

/-- A task with the id that its request took, if it took one. -/
structure Task where
  errand : Errand
  id? : Option RequestId
  rest : Program Ending

structure Place where
  errand : Errand
  id? : Option RequestId
  standing : Standing

inductive Turn where
  | begin (e : Errand)
  /-- A task goes on, if it can. -/
  | goOn (i : Nat)
  | others (change : Hub → Hub)

end Switchboard

structure Switchboard where
  hub : Hub
  /-- The tasks in the order in which they began. -/
  tasks : List Switchboard.Task

namespace Switchboard

variable {c : Nat}

/-- The id that a task takes, unless it ends at once. -/
def idOf (c : Nat) (e : Errand) (h : Hub) (hasEnded : Bool) : Option RequestId :=
  match e with
  | .ask _ => if hasEnded then none else some (.number (h.client c).nextId)
  | _ => none

/-- There is one reader at a time, and none after one that does not go on. -/
def letsListen (errand : Errand) (result? : Option Ending) : Bool :=
  match errand, result? with
  | .listen, some (.listened goesOn) => goesOn
  | .listen, _ => false
  | _, _ => true

def Errand.isDue (e : Errand) (others : List (Errand × Option Ending)) : Bool :=
  match e with
  | .listen => others.all fun other => letsListen other.1 other.2
  | _ => true

def ofHub (h : Hub) : Switchboard := ⟨h, []⟩

def results (d : Switchboard) : List (Errand × Option Ending) :=
  d.tasks.map fun task => (task.errand, task.rest.result?)

def step (c : Nat) (d : Switchboard) : Turn → Switchboard
  | .begin e =>
    if e.isDue d.results then
      let st := (e.program c).legFrom d.hub []
      ⟨st.state, d.tasks ++ [⟨e, idOf c e d.hub st.result?.isSome, st.rest⟩]⟩
    else d
  | .goOn i =>
    match d.tasks[i]? with
    | none => d
    | some task =>
      let st := task.rest.advance d.hub []
      ⟨st.state, d.tasks.set i { task with rest := st.rest }⟩
  | .others change => { d with hub := change d.hub }

def run (c : Nat) (d : Switchboard) (turns : List Turn) : Switchboard := turns.foldl (step c) d

/-! ## The lineup -/

def Standing.result? : Standing → Option Ending
  | .ended e => some e
  | _ => none

structure Lineup where
  hub : Hub
  places : List Place

namespace Lineup

def results (l : Lineup) : List (Errand × Option Ending) :=
  l.places.map fun place => (place.errand, place.standing.result?)

def step (c : Nat) (l : Lineup) : Turn → Lineup
  | .begin e =>
    if e.isDue l.results then
      let next := e.begin c l.hub
      ⟨next.1, l.places ++ [⟨e, idOf c e l.hub next.2.result?.isSome, next.2⟩]⟩
    else l
  | .goOn i =>
    match l.places[i]? with
    | none => l
    | some place =>
      let next := place.standing.go c l.hub
      ⟨next.1, l.places.set i { place with standing := next.2 }⟩
  | .others change => { l with hub := change l.hub }

def run (c : Nat) (l : Lineup) (turns : List Turn) : Lineup := turns.foldl (step c) l

end Lineup

def Place.task (c : Nat) (place : Place) : Task :=
  ⟨place.errand, place.id?, place.standing.program c⟩

def Lineup.board (c : Nat) (l : Lineup) : Switchboard := ⟨l.hub, l.places.map (·.task c)⟩

theorem result?_standing (st : Standing) : (st.program c).result? = st.result? := by
  rw [result?_program]
  cases st <;> rfl

theorem results_board (l : Lineup) : (l.board c).results = l.results := by
  simp [results, Lineup.results, Lineup.board, Place.task, result?_standing]

/-- A turn of the switchboard is one of its lineup. -/
theorem board_step (l : Lineup) (hkept : (l.hub.client c).isDropped = false) (turn : Turn) :
    (l.step c turn).board c = (l.board c).step c turn := by
  cases turn with
  | begin e =>
    simp only [Lineup.step, step, results_board]
    split
    · simp only [Lineup.board, List.map_append, List.map_cons, List.map_nil, Place.task,
        legFrom_errand e hkept, Stage.result?, result?_standing]
    · rfl
  | goOn i =>
    simp only [Lineup.step, step, Lineup.board, List.getElem?_map]
    cases l.places[i]? with
    | none => rfl
    | some place =>
      simp only [Option.map_some, Place.task, advance_program place.standing hkept, List.map_set]
  | others change => rfl

end Switchboard

end LanguageHub
