import LanguageHub.Error
import LanguageHub.Wire.Message

/-!
# Links

A link is the pair of byte streams between a client and its server, as the client sees it:
what arrived and was not read yet, and the frames that were begun. Either stream may
fail, and the outgoing one may be full for a while.
-/

namespace LanguageHub

/-- A stream works this many times more and then fails for a reason. -/
structure StreamFault where
  after : Nat
  reason : String
  deriving DecidableEq, Repr, Inhabited

namespace StreamFault

/-- The reason, once the stream fails. -/
def due? (f : Option StreamFault) : Option String :=
  f.bind fun f => if f.after = 0 then some f.reason else none

/-- The stream worked once more. -/
def used (f : Option StreamFault) : Option StreamFault :=
  f.map fun f => { f with after := f.after - 1 }

end StreamFault

/-- A frame that was begun and how many of its bytes were accepted. -/
structure Outgoing where
  message : Message
  size : Nat
  accepted : Nat
  deriving Repr, Inhabited

def Outgoing.isWhole (o : Outgoing) : Bool := o.accepted == o.size

structure Link where
  /-- Bytes from the server that were not read yet. -/
  incoming : Frame.Bytes
  /-- Nothing more will come from the server. -/
  hasEnded : Bool
  readFault : Option StreamFault
  /-- The frames that were begun, the first one first. -/
  outgoing : List Outgoing
  writeFault : Option StreamFault
  /-- How many bytes are accepted before the stream is full, when that is limited. -/
  room : Option Nat
  /-- The server behind the link runs and will not go by itself. -/
  isLingering : Bool
  processId : Option Nat
  deriving Repr, Inhabited

/-- What a read gives. -/
inductive Arrival where
  | bytes (received : Frame.Bytes)
  /-- The end of the stream, or a failure. -/
  | ended
  deriving Repr

namespace Link

def fresh : Link := ⟨[], false, none, [], none, none, false, none⟩

/-! ## Incoming -/

/-- A read would not wait. -/
def isReadable (l : Link) : Bool :=
  (StreamFault.due? l.readFault).isSome || !l.incoming.isEmpty || l.hasEnded

/-- Reads at most `limit` bytes of what is there. -/
def read (l : Link) (limit : Nat) : Arrival × Link :=
  if (StreamFault.due? l.readFault).isSome || l.incoming.isEmpty then (.ended, l)
  else
    (.bytes (l.incoming.take limit),
      { l with incoming := l.incoming.drop limit, readFault := StreamFault.used l.readFault })

/-- More bytes from the server, unless its stream has ended. -/
def arrive (l : Link) (bytes : Frame.Bytes) : Link :=
  if l.hasEnded then l else { l with incoming := l.incoming ++ bytes }

/-- The server's stream ends. -/
def finish (l : Link) : Link := { l with hasEnded := true }

/-! ## Outgoing -/

/-- A write would not wait. -/
def isWritable (l : Link) : Bool :=
  (StreamFault.due? l.writeFault).isSome || l.room != some 0

/-- How many of this many bytes are accepted at once. -/
def acceptable (l : Link) (count : Nat) : Nat :=
  match l.room with
  | none => count
  | some room => min room count

/-- Frames with more bytes of the last one accepted. -/
def grow (count : Nat) : List Outgoing → List Outgoing
  | [] => []
  | [o] => [{ o with accepted := o.accepted + count }]
  | o :: os => o :: grow count os

/-- Writes of a frame of `size` bytes what follows the first `sent`, as far as there is
room; the count of bytes accepted. -/
def write (l : Link) (m : Message) (size sent : Nat) : Except HubError Nat × Link :=
  match StreamFault.due? l.writeFault with
  | some reason => (.error (.transport reason), l)
  | none =>
    let count := l.acceptable (size - sent)
    let outgoing := if sent = 0 then l.outgoing ++ [⟨m, size, count⟩] else grow count l.outgoing
    (.ok count, { l with
      outgoing
      writeFault := StreamFault.used l.writeFault
      room := l.room.map (· - count) })

/-- The bytes that the server got so far. -/
def bytesOut (l : Link) : Frame.Bytes :=
  l.outgoing.flatMap fun o => o.message.frame.take o.accepted

/-- The messages that the server got whole. -/
def messagesOut (l : Link) : List Message :=
  (l.outgoing.filter (·.isWhole)).map (·.message)

end Link

end LanguageHub
