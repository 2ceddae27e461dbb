import Modbus.Dispatch
import Modbus.Reply.Basic

/-!
# Sessions

A session is a client at work: the connection it sends through, with the queue of what it has sent,
and what it keeps for itself, which is the response timeout and the last reason for which a request
was not sent.
-/

namespace Modbus

/-! ## Connections and their queues -/

/-- The states of a connection. -/
inductive ConnectionState
  | unconnected
  | connecting
  | connected
  | closing
  | closed
  deriving DecidableEq, Repr

namespace ConnectionState

/-- Every state of a connection. -/
def all : List ConnectionState := [unconnected, connecting, connected, closing, closed]

/-- The name of a state. -/
def name : ConnectionState → String
  | unconnected => "Unconnected"
  | connecting => "Connecting"
  | connected => "Connected"
  | closing => "Closing"
  | closed => "Closed"

/-- The state of a given name. -/
def ofName? (s : String) : Option ConnectionState :=
  all.find? fun c => c.name = s

end ConnectionState

/-- A request in the queue: the unit its response is decoded into, and its reply. -/
structure Element where
  request : Request
  unit : DataUnit
  reply : Reply
  deriving DecidableEq, Repr

/-- The connection of a session, and its queue. -/
structure Transport where
  /-- The state that the connection is in. -/
  state : ConnectionState := .connected
  /-- Whether the connection is open, where this does not follow from its state. -/
  openOverride : Option Bool := none
  /-- The queue takes no request at present. -/
  refusing : Bool := false
  /-- The requests that the queue has taken, oldest first. -/
  queue : List Element := []
  deriving DecidableEq, Repr

namespace Transport

/-- The connection is open. -/
def isOpen (t : Transport) : Bool :=
  t.openOverride.getD (t.state != .unconnected && t.state != .closed)

/-- The connection is up: requests can be sent. -/
def IsUp (t : Transport) : Prop := t.isOpen ∧ t.state = .connected

instance (t : Transport) : Decidable t.IsUp :=
  inferInstanceAs (Decidable (_ ∧ _))

/-- Hands an element to the queue, which takes it or leaves things as they are. -/
def enqueue? (t : Transport) (e : Element) : Option Transport :=
  if t.refusing then none else some { t with queue := t.queue ++ [e] }

end Transport

/-- A new element, whose reply is pending. -/
def Element.pending (request : Request) (slave : UInt8) (unit : DataUnit) (kind : ReplyKind) :
    Element :=
  { request, unit, reply := { kind, slave } }

/-! ## Sessions -/

/-- The response timeout of a session is a number of milliseconds; a negative one means that there
is no limit. -/
def responseLimit? (timeout : Int) : Option Nat :=
  if 0 ≤ timeout then some timeout.toNat else none

/-- A client at work. -/
structure Session where
  transport : Transport := {}
  /-- The response timeout in milliseconds. -/
  timeout : Int := 200
  /-- Why the last request that was not sent was not sent. -/
  lastError : Option SendError := none
  /-- What decodes the responses that are not decoded here. -/
  extension : Option Extension := none
  /-- How many times the extension has been called. -/
  extensionCalls : Nat := 0

namespace Session

/-- The queue of the connection. -/
def queue (s : Session) : List Element := s.transport.queue

/-- The failure of the last request that was not sent. -/
def failure (s : Session) : Failure :=
  match s.lastError with
  | some e => e.failure
  | none => .noError

/-- The limit within which a response has to come. -/
def responseLimit? (s : Session) : Option Nat := Modbus.responseLimit? s.timeout

/-- The session with the reply of an element replaced. -/
def setReply (s : Session) (index : Nat) (reply : Reply) : Session :=
  { s with transport.queue := s.queue.modify index fun e => { e with reply } }

end Session

end Modbus
