/-!
# Failures

A `Failure` is what a caller gets to see of something that went wrong: its kind and a message.
`SendError` lists the three reasons for which a request is not sent, each of which is a failure.
-/

namespace Modbus

/-- The kinds of failure; `noError` says that nothing failed. -/
inductive FailureKind
  | noError
  | connection
  | write
  | protocol
  | unknown
  | timeout
  | replyAborted
  deriving DecidableEq, Repr

namespace FailureKind

/-- Every kind of failure. -/
def all : List FailureKind := [noError, connection, write, protocol, unknown, timeout, replyAborted]

/-- The name of a kind of failure. -/
def name : FailureKind → String
  | noError => "NoError"
  | connection => "ConnectionError"
  | write => "WriteError"
  | protocol => "ProtocolError"
  | unknown => "UnknownError"
  | timeout => "TimeoutError"
  | replyAborted => "ReplyAbortedError"

/-- The kind of failure of a given name. -/
def ofName? (s : String) : Option FailureKind :=
  all.find? fun k => k.name = s

end FailureKind

/-- What went wrong, as a caller sees it. -/
structure Failure where
  kind : FailureKind
  message : String
  deriving DecidableEq, Repr

namespace Failure

/-- Nothing went wrong. -/
def noError : Failure := ⟨.noError, ""⟩

/-- The response to a request did not arrive in time. -/
def timeout : Failure := ⟨.timeout, "Request timeout."⟩

/-- The response to a request makes no sense. -/
def invalidResponse : Failure := ⟨.unknown, "An invalid response has been received."⟩

/-- A failure as one line of text. -/
def text (f : Failure) : String :=
  f.kind.name ++ ": " ++ f.message

end Failure

/-- Why a request has not been sent. -/
inductive SendError
  /-- The connection is not open, or not in the state of a connection that is up. -/
  | notConnected
  /-- There is no valid request for what was asked. -/
  | invalidRequest
  /-- The queue does not take the request for this server. -/
  | refused (slave : UInt8)
  deriving DecidableEq, Repr

namespace SendError

/-- A reason as the caller sees it. -/
def failure : SendError → Failure
  | notConnected => ⟨.connection, "Device not connected."⟩
  | invalidRequest => ⟨.write, "Invalid Modbus request."⟩
  | refused _ => ⟨.replyAborted, "Request could not be queued."⟩

/-- A reason as it is logged. -/
def warning : SendError → String
  | notConnected => "Device is not connected"
  | invalidRequest => "Refuse to send invalid request."
  | refused slave => s!"Request for slave {slave} was refused by the queue"

end SendError

end Modbus
