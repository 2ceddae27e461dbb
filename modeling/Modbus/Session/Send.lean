import Modbus.Request.OfUnit
import Modbus.Session.Basic

/-!
# Sending requests

A command is what a caller asks for: to read a unit, to write one, to do both, or to send a request
as it is. `Session.send` turns it into an element of the queue, or tells why not; then nothing but
the session's last error is changed, and that error stays until the next command fails.

There are three reasons not to send, and the first that applies is given: the connection is not up,
the request is not valid, the queue refuses it.
-/

namespace Modbus

/-! ## Commands -/

/-- What a caller asks for. -/
inductive Command
  | read (unit : DataUnit)
  | write (unit : DataUnit)
  | exchange (read write : DataUnit)
  | raw (request : Request)
  deriving DecidableEq, Repr

namespace Command

/-- The request that does what is asked. -/
def request : Command → Request
  | read u => u.readRequest
  | write u => u.writeRequest
  | exchange r w => r.exchangeRequest w
  | raw q => q

/-- The unit that the response is decoded into. Nothing is decoded for a request sent as it is. -/
def unit : Command → DataUnit
  | read u => u
  | write u => u
  | exchange r _ => r
  | raw _ => {}

/-- The kind of reply that the caller gets. -/
def kind : Command → ReplyKind
  | raw _ => .raw
  | _ => .common

/-- The element that carries out a command. -/
def element (c : Command) (slave : UInt8) : Element :=
  .pending c.request slave c.unit c.kind

end Command

/-! ## Sending -/

namespace Session

/-- Hands an element to the connection: the connection with the element in its queue, or the first
reason not to send it. -/
def handOver (s : Session) (e : Element) : Except SendError Transport :=
  if ¬ s.transport.IsUp then .error .notConnected
  else if ¬ e.request.IsValid then .error .invalidRequest
  else
    match s.transport.enqueue? e with
    | some transport => .ok transport
    | none => .error (.refused e.reply.slave)

/-- Sends a command to the server `slave`: the new element of the queue, or why there is none. -/
def send (s : Session) (c : Command) (slave : UInt8) :
    Logged (Except SendError Element × Session) :=
  match s.handOver (c.element slave) with
  | .ok transport => pure (.ok (c.element slave), { s with transport })
  | .error reason => do
    Logged.emit (.sendFailed reason)
    pure (.error reason, { s with lastError := some reason })

end Session

end Modbus
