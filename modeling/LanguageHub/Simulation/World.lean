import LanguageHub.Hub.Jobs
import LanguageHub.Routine.Machine
import LanguageHub.Simulation.Script

/-!
# A world with its own time

A hub together with scripted servers and a clock. Whatever can go on does so without taking
time: tasks first, then servers, then the program in the foreground. Only when nothing can,
the clock moves on to the next moment for which something waits.
-/

namespace LanguageHub.Simulation

/-- The server's end of a link. -/
structure Peer where
  serverId : String
  root : String
  /-- How many messages it has dealt with. -/
  handled : Nat
  isOpen : Bool
  deriving Repr, Inhabited

/-- The name of the peer in reports. -/
def Peer.key (p : Peer) : String := p.serverId ++ "@" ++ p.root

/-- Something that a server sends later. -/
structure Delivery where
  due : Duration
  link : Nat
  bytes : Frame.Bytes
  hangsUp : Bool
  deriving Repr, Inhabited

structure World where
  machine : Machine Job Hub
  servers : List ScriptedServer
  /-- The servers' ends of the links, in their order. -/
  peers : List Peer
  deliveries : List Delivery
  /-- What the servers got, with the peer's name. -/
  log : List (String × Message)

namespace World

def ofHub (h : Hub) (servers : List ScriptedServer) : World := ⟨.ofState h, servers, [], [], []⟩

def hub (w : World) : Hub := w.machine.state

def modifyHub (f : Hub → Hub) (w : World) : World := { w with machine := w.machine.modify f }

/-- Changes the hub and keeps what the change gives. -/
def fromHub (f : Hub → α × Hub) (w : World) : α × World :=
  let (a, h) := f w.hub
  (a, w.modifyHub fun _ => h)

/-- Starts a job; the id of its task. -/
def start (job : Job) (w : World) : Nat × World :=
  (w.machine.nextTask, { w with machine := w.machine.start Job.program job })

/-- Drops a task. -/
def abort (task : Nat) (w : World) : World := { w with machine := w.machine.abort task }

/-- A fault of a stream after as many good uses as the member says. -/
def faultAt? (key : String) (v : Json) : Option StreamFault :=
  (v.natAt? key).map fun n => ⟨n, "flaky"⟩

/-- The way in which a connection turns out, as scripts name it. -/
def launchOf : Json → Launch
  | .str "start_error" => .refused "scripted"
  | .str "dead" => .refused "died"
  | .str "no_streams" => .mute
  | v => .opened (faultAt? "reads" v) (faultAt? "writes" v)

/-- How the connections to a scripted server turn out; well, without a word on it. -/
def launchesOf (v : Json) : List Launch :=
  match v.itemsAt "modes" with
  | [] => [.opened none none]
  | modes => modes.map launchOf

/-- A world with the servers that scripts describe, which the host editor reaches. -/
def described (h : Hub) (scripts : List (String × Json)) : World :=
  let registry := scripts.foldl (fun r (id, _) => r.registerFactory id) h.registry
  let launches := scripts.map fun (id, v) => (id, launchesOf v)
  ofHub { h with registry, launches } (scripts.map fun (id, v) => .ofJson id v)

/-! ## Servers -/

/-- Every link has a peer. -/
def greet (w : World) : World :=
  let new := (w.hub.links.drop w.peers.length).map fun l => ⟨l.serverId, l.root, 0, true⟩
  { w with peers := w.peers ++ new }

def onPeer (i : Nat) (f : Peer → Peer) (w : World) : World :=
  { w with peers := w.peers.modify i f }

/-- The server hangs up. -/
def hangUp (link : Nat) (w : World) : World :=
  (w.modifyHub (Hub.onLink link (·.finish))).onPeer link fun p => { p with isOpen := false }

/-- The server sends bytes, unless it has hung up. -/
def send (link : Nat) (bytes : Frame.Bytes) (w : World) : World :=
  w.modifyHub (Hub.onLink link (·.arrive bytes))

/-- The server sends something now or later. -/
def deliver (link : Nat) (w : World) (s : Sending) : World :=
  if s.delay.isZero then
    let w := w.send link s.bytes
    if s.hangsUp then w.hangUp link else w
  else
    let due : Duration := ⟨w.hub.clock.nanos + s.delay.nanos⟩
    { w with deliveries := w.deliveries ++ [⟨due, link, s.bytes, s.hangsUp⟩] }

def onServer (id : String) (s : ScriptedServer) (w : World) : World :=
  { w with servers := w.servers.map fun t => if t.id == id then s else t }

/-- A server's replies to a method are these from now on. -/
def setScript (id method : String) (replies : List ScriptedReply) (w : World) : World :=
  { w with servers := w.servers.map fun t => if t.id == id then t.setScript method replies else t }

/-- A peer that has not hung up deals with a message. -/
def react (link : Nat) (p : Peer) (m : Message) (w : World) : World :=
  match w.servers.find? (·.id == p.serverId) with
  | none => w
  | some server =>
    if p.isOpen then
      let (sendings, server) := server.react m
      sendings.foldl (deliver link) (w.onServer p.serverId server)
    else w

/-- A peer gets a message. -/
def hear (link : Nat) (p : Peer) (m : Message) (w : World) : World :=
  let w := { w with log := w.log ++ [(p.key, m)] }
  (w.onPeer link fun p => { p with handled := p.handled + 1 }).react link p m

/-- The first message that a peer has not dealt with. -/
def unheard? (w : World) : Option (Nat × Peer × Message) :=
  w.peers.zipIdx.findSome? fun (p, i) =>
    ((w.hub.link i).messagesOut[p.handled]?).map fun m => (i, p, m)

/-- A delivery that is due arrives. -/
def arrive? (w : World) : Option World :=
  (w.deliveries.find? fun d => w.hub.hasPassed d.due).map fun d =>
    let rest := w.deliveries.eraseIdx (w.deliveries.findIdx fun e => w.hub.hasPassed e.due)
    deliver d.link { w with deliveries := rest } ⟨⟨0⟩, d.bytes, d.hangsUp⟩

/-! ## Time -/

/-- The task that has waited longest goes on, or else a server does something. -/
def stir? (w : World) : Option World :=
  let w := w.greet
  match w.machine.turn? Job.program with
  | some machine => some { w with machine }
  | none =>
    match w.arrive? with
    | some w => some w
    | none => w.unheard?.map fun (i, p, m) => w.hear i p m

/-- The moments for which something waits. -/
def moments (w : World) : List Nat :=
  (w.hub.timers.map (·.nanos) ++ w.deliveries.map (·.due.nanos)).filter (w.hub.clock.nanos < ·)

/-- The clock moves on to the next moment. -/
def tick? (w : World) : Option World :=
  w.moments.min?.map fun t => w.modifyHub fun h =>
    { h with clock := ⟨t⟩, timers := h.timers.filter (t < ·.nanos) }

/-! ## Running -/

/-- Lets the world go on until a program in the foreground is done, for so many steps. -/
def await : Nat → Program α → World → Option α × World
  | 0, _, w => (none, w)
  | _ + 1, .done a, w => (some a, w)
  | fuel + 1, p, w =>
    match w.stir? with
    | some w => await fuel p w
    | none =>
      if p.isReady w.hub then
        let (machine, rest) := w.machine.turnOf Job.program p
        await fuel rest { w with machine }
      else
        match w.tick? with
        | some w => await fuel p w
        | none => (none, w)

/-- More steps than any run takes. -/
def stepLimit : Nat := UInt64.size

/-- Runs a program in the foreground. -/
def run (p : Program α) (w : World) : Option α × World :=
  let (machine, rest) := w.machine.turnOf Job.program p
  await stepLimit rest { w with machine }

/-- Time passes. -/
def pass (d : Duration) (w : World) : World := (w.run (Program.sleep d)).2

end World

end LanguageHub.Simulation
