import Modbus.Session.Basic

/-!
# Completing requests

When the response to a queued request arrives, its reply is told first what the response is and then
what it means: an exception is a failure, a raw reply is finished, and any other response has to be
decoded. Decoding works on a copy of the element's unit, so the element itself keeps its own.
-/

namespace Modbus

namespace Element

/-- What a decoded response, or one that could not be decoded, means for the reply. -/
def conclusion (v : Verdict) : List Action :=
  if v.accepted then v.unit.toList.map .setResult ++ [.setFinished true]
  else [.setFailure .invalidResponse]

/-- What a response means for the reply of an element, and how many times the extension was called
to find out. -/
def interpret (e : Element) (extension : Option Extension) (r : Response) :
    Logged (List Action × Nat) :=
  if r.IsException then do
    Logged.emit (.exceptionReceived r.code r.exceptionCode?)
    pure ([.setFailure (.exception r.exceptionCode?)], 0)
  else
    match e.reply.kind with
    | .raw => pure ([.setFinished true], 0)
    | .common => do
      let v ← r.process extension (some e.unit)
      pure (conclusion v, v.calls)

/-- Completes the reply of an element with a response: the reply afterwards, and how many times the
extension was called. -/
def complete (e : Element) (extension : Option Extension) (r : Response) :
    Logged (Reply × Nat) := do
  let reply ← e.reply.apply (.setResponse r)
  let (actions, calls) ← e.interpret extension r
  let reply ← reply.applyAll actions
  pure (reply, calls)

end Element

end Modbus
