import Modbus.Reply.Executor

/-!
# Waiting for a reply

To wait is to let time pass until the reply is complete, or until a limit has passed: then the reply
fails with a timeout. Meanwhile others tell the reply things. Who that is does not matter, so what
they say is a schedule, a list of actions each with the moment it happens, earliest first.

Who comes first, the reply or the limit, is for the executor to say (`Modbus.Reply.Executor`). What
is done about it is defined here:

* `Reply.notices` are the outcomes that the waiting caller is sent, one for each action that touches
  the reply;
* `Reply.finished` is the wait until one of them is that of a complete reply;
* `Reply.expire` is what is done when the executor says that the limit has passed. It does not look
  whether the reply is pending: a complete reply keeps its outcome anyway (`Reply.update`);
* `Reply.waitOn` puts these together, one branch for each thing that the executor can say.

A wait without a limit only ends if some action completes the reply, so the result is partial: it is
`none` exactly for the waits that would never end. `Reply.wait` waits on the virtual clock.
-/

namespace Modbus

/-- An action that happens `delay` milliseconds into a wait. -/
structure TimedAction where
  delay : Nat
  action : Action
  deriving DecidableEq, Repr

namespace TimedAction

/-- The action happens before the limit has passed; without a limit every action does. -/
def IsWithin (t : TimedAction) (limit : Option Nat) : Prop :=
  ∀ ms ∈ limit, t.delay < ms

instance (t : TimedAction) (limit : Option Nat) : Decidable (t.IsWithin limit) :=
  inferInstanceAs (Decidable (∀ ms ∈ limit, _))

/-- The actions of a schedule that happen within the limit. -/
def within (limit : Option Nat) (schedule : List TimedAction) : List Action :=
  (schedule.takeWhile fun t => t.IsWithin limit).map TimedAction.action

/-- The actions that are left at the limit. -/
def beyond (limit : Option Nat) (schedule : List TimedAction) : List Action :=
  (schedule.dropWhile fun t => t.IsWithin limit).map TimedAction.action

end TimedAction

namespace Reply

/-- What a waiting caller is sent when the reply is told something at `moment`: the outcome, if it
has been touched. -/
def noticesOf (r : Reply) (moment : Nat) (a : Action) : List Notice :=
  let (touched, r) := (r.tell a).value
  if touched then [⟨moment, r.outcome⟩] else []

/-- What a waiting caller is sent from `moment` on, while the actions of a schedule happen. -/
def notices (r : Reply) (moment : Nat) : List TimedAction → List Notice
  | [] => []
  | t :: schedule =>
    let moment := max moment t.delay
    r.noticesOf moment t.action ++ (r.apply t.action).value.notices moment schedule

/-- Waits until the reply is complete: the status that it then has. Were there nobody left to send
an outcome, it would be the status that the reply has at that moment. -/
def finished (ex : Executor) (r : Reply) (schedule : List TimedAction) : Future Status :=
  (ex.waitFor Outcome.isComplete r.outcome (r.notices 0 schedule)).andThen fun moment received =>
    match received with
    | some outcome => outcome.status
    | none => (r.applyAll (TimedAction.within (some moment) schedule)).value.outcome.status

/-- The limit of `ms` milliseconds has passed. -/
def expire (r : Reply) (ms : Nat) : Logged Reply := do
  Logged.emit (.timedOut r.slave ms)
  r.apply (.setFailure .timeout)

/-- Waits for a reply for at most `limit` milliseconds, or for as long as it takes, while the
actions of `schedule` happen: the status at the end of the wait, and the reply once all actions
have happened. There is no such end without a limit when the reply is never complete. -/
def waitOn (ex : Executor) (r : Reply) (limit : Option Nat) (schedule : List TimedAction) :
    Option (Logged (Status × Reply)) :=
  match limit with
  | none =>
    (r.finished ex schedule).value?.map fun status => do
      let last ← r.applyAll (schedule.map TimedAction.action)
      pure (status, last)
  | some ms =>
    match ex.timeout ms (r.finished ex schedule) with
    | .completed status => some do
      let last ← r.applyAll (schedule.map TimedAction.action)
      pure (status, last)
    | .elapsed moment => some do
      let r ← r.applyAll (TimedAction.within (some moment) schedule)
      let r ← r.expire ms
      let last ← r.applyAll (TimedAction.beyond (some moment) schedule)
      pure (r.outcome.status, last)

/-- Waits for a reply on the virtual clock. -/
def wait (r : Reply) (limit : Option Nat) (schedule : List TimedAction) :
    Option (Logged (Status × Reply)) :=
  r.waitOn .virtual limit schedule

end Reply

end Modbus
