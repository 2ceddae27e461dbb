import Modbus.Reply.Wait
import Modbus.Session.Complete
import Modbus.Session.Send

/-!
# Steps of a session

Everything that can happen to a session is a `Step`, and what it tells in return an `Answer`.
`Session.step` does one step and `Session.run` a list of them. Elements are only ever added to the
queue, so the index of an element stays the same throughout a run.

A step about an element that is not in the queue, or a wait that would never end, changes nothing
and has no answer.
-/

namespace Modbus

/-! ## What steps are made of -/

/-- How long a caller waits for a reply. -/
inductive Patience
  /-- As long as it takes. -/
  | endless
  /-- A number of milliseconds. -/
  | limited (ms : Nat)
  /-- As long as the session's response timeout says. -/
  | configured
  deriving DecidableEq, Repr

/-- Changes to a connection; what is `none` stays as it is. -/
structure TransportChange where
  state : Option ConnectionState := none
  openOverride : Option (Option Bool) := none
  refusing : Option Bool := none
  deriving DecidableEq, Repr

/-- The connection after a change. -/
def Transport.change (t : Transport) (c : TransportChange) : Transport :=
  { t with
    state := c.state.getD t.state
    openOverride := c.openOverride.getD t.openOverride
    refusing := c.refusing.getD t.refusing }

namespace Session

/-! ## Steps and answers -/

/-- What can happen to a session. -/
inductive Step
  /-- A caller sends a command. -/
  | send (command : Command) (slave : UInt8)
  /-- A request is handed to the queue directly. -/
  | enqueue (request : Request) (slave : UInt8) (unit : DataUnit) (kind : ReplyKind)
  /-- The response to a queued request arrives. -/
  | complete (index : Nat) (response : Response)
  /-- A response is decoded that answers no queued request. -/
  | process (response : Response) (unit : Option DataUnit)
  /-- A caller waits for a reply. -/
  | wait (index : Nat) (patience : Patience) (schedule : List TimedAction)
  /-- A reply is told something directly. -/
  | act (index : Nat) (action : Action)
  /-- A caller looks at an element. -/
  | inspect (index : Nat)
  /-- The response timeout is set. -/
  | setTimeout (ms : Int)
  /-- The connection changes. -/
  | changeTransport (change : TransportChange)
  deriving DecidableEq, Repr

/-- What a step answers. -/
inductive Answer
  | sent (outcome : Except SendError Element)
  | enqueued (reply : Option Reply)
  | reply (reply : Reply)
  | processed (accepted : Bool) (unit : Option DataUnit)
  | waited (status : Status) (reply : Reply)
  | element (element : Element)
  | timeoutSet (changed : Bool)
  | transport (isOpen : Bool) (state : ConnectionState)

/-! ## What a step does -/

/-- The limit of a wait. -/
def limit? (s : Session) : Patience → Option Nat
  | .endless => none
  | .limited ms => some ms
  | .configured => s.responseLimit?

/-- Does something to the element at `index`, if there is one. -/
def withElement (s : Session) (index : Nat) (f : Element → Logged (Option Answer × Session)) :
    Logged (Option Answer × Session) :=
  match s.queue[index]? with
  | some e => f e
  | none => pure (none, s)

/-- Hands a request to the queue, whatever the state of the connection. -/
def enqueue (s : Session) (e : Element) : Option Answer × Session :=
  match s.transport.enqueue? e with
  | some transport => (some (.enqueued (some e.reply)), { s with transport })
  | none => (some (.enqueued none), s)

/-- Sets the response timeout, and tells whether it was another before. -/
def setTimeout (s : Session) (ms : Int) : Logged (Option Answer × Session) :=
  if s.timeout = ms then pure (some (.timeoutSet false), s)
  else do
    Logged.emit (.timeoutChanged s.timeout ms)
    pure (some (.timeoutSet true), { s with timeout := ms })

/-- Does a step: its answer, and the session afterwards. -/
def step (s : Session) : Step → Logged (Option Answer × Session)
  | .send command slave => do
    let (outcome, s) ← s.send command slave
    pure (some (.sent outcome), s)
  | .enqueue request slave unit kind => pure (s.enqueue (.pending request slave unit kind))
  | .complete index response =>
    s.withElement index fun e => do
      let (reply, calls) ← e.complete s.extension response
      let s := { s with extensionCalls := s.extensionCalls + calls }
      pure (some (.reply reply), s.setReply index reply)
  | .process response unit => do
    let v ← response.process s.extension unit
    let s := { s with extensionCalls := s.extensionCalls + v.calls }
    pure (some (.processed v.accepted v.unit), s)
  | .wait index patience schedule =>
    s.withElement index fun e =>
      match e.reply.wait (s.limit? patience) schedule with
      | some ended => do
        let (status, reply) ← ended
        pure (some (.waited status reply), s.setReply index reply)
      | none => pure (none, s)
  | .act index action =>
    s.withElement index fun e => do
      let reply ← e.reply.apply action
      pure (some (.reply reply), s.setReply index reply)
  | .inspect index => s.withElement index fun e => pure (some (.element e), s)
  | .setTimeout ms => s.setTimeout ms
  | .changeTransport change =>
    let transport := s.transport.change change
    pure (some (.transport transport.isOpen transport.state), { s with transport })

/-! ## Runs -/

/-- Does steps one after the other: the answer of each, and the session at the end. -/
def run (s : Session) : List Step → Logged (List (Option Answer) × Session)
  | [] => pure ([], s)
  | st :: steps => do
    let (answer, s) ← s.step st
    let (answers, s) ← s.run steps
    pure (answer :: answers, s)

/-- The session at the end of a run. -/
def after (s : Session) (steps : List Step) : Session := (s.run steps).value.2

@[simp] theorem after_nil (s : Session) : s.after [] = s := rfl

@[simp] theorem after_cons (s : Session) (st : Step) (steps : List Step) :
    s.after (st :: steps) = ((s.step st).value.2).after steps := rfl

theorem after_append (s : Session) (steps₁ steps₂ : List Step) :
    s.after (steps₁ ++ steps₂) = (s.after steps₁).after steps₂ := by
  induction steps₁ generalizing s with
  | nil => rfl
  | cons st steps₁ ih => simp [ih]

@[simp] theorem log_run_cons (s : Session) (st : Step) (steps : List Step) :
    (s.run (st :: steps)).log = (s.step st).log ++ ((s.step st).value.2.run steps).log := by
  simp [run]

end Session

end Modbus
