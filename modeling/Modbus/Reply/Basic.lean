import Modbus.DataUnit
import Modbus.Log
import Modbus.Response.Basic

/-!
# Replies

A reply is where the outcome of one request is gathered. It is pending until it is finished or has
failed, and complete from then on: what it is told later changes nothing and is logged
(`Reply.apply_of_isComplete`). To tell a reply something is `Reply.tell`, which also says whether
the outcome was touched, since then those who wait for the reply are woken.
-/

namespace Modbus

/-- What a caller wants to know of a response: its bytes only, or also its content. -/
inductive ReplyKind
  | raw
  | common
  deriving DecidableEq, Repr

namespace ReplyKind

/-- The name of a kind of reply. -/
def name : ReplyKind → String
  | raw => "Raw"
  | common => "Common"

/-- The kind of reply of a given name. -/
def ofName? (s : String) : Option ReplyKind :=
  [raw, common].find? fun k => k.name = s

end ReplyKind

/-- How far a reply has come. -/
inductive Status
  | pending
  | finished
  | failed (failure : Failure)
  deriving DecidableEq, Repr

namespace Status

/-- The name of a status, without the failure. -/
def name : Status → String
  | pending => "Pending"
  | finished => "Finished"
  | failed _ => "Errored"

/-- The failure that a reply ended in. -/
def failure : Status → Failure
  | failed f => f
  | _ => .noError

end Status

/-- What a reply has gathered: how far it has come, the response, and the response's content. -/
structure Outcome where
  status : Status := .pending
  response : Option Response := none
  result : Option DataUnit := none
  deriving DecidableEq, Repr

/-- The outcome is that of a reply which is finished or has failed. -/
def Outcome.isComplete (o : Outcome) : Bool := o.status ≠ .pending

/-- Changes an outcome, unless it is that of a complete reply: whether it does, and the outcome
then. -/
def Outcome.changeUnlessComplete (o : Outcome) (change : Outcome → Outcome) : Bool × Outcome :=
  if o.isComplete then (false, o) else (true, change o)

/-- The reply to one request to the server `slave`. -/
structure Reply where
  kind : ReplyKind
  slave : UInt8
  outcome : Outcome := {}
  deriving DecidableEq, Repr

/-! ## Telling a reply something -/

/-- What a reply can be told. -/
inductive Action
  /-- This is the response. -/
  | setResponse (r : Response)
  /-- This is the response's content. -/
  | setResult (u : DataUnit)
  /-- The request has failed. -/
  | setFailure (f : Failure)
  /-- The reply is finished; `false` says nothing. -/
  | setFinished (finished : Bool)
  deriving DecidableEq, Repr

/-- What an action makes of a pending outcome. -/
def Action.effect : Action → Outcome → Outcome
  | setResponse r, o => { o with response := some r }
  | setResult u, o => { o with result := some u }
  | setFailure f, o => { o with status := .failed f }
  | setFinished true, o => { o with status := .finished }
  | setFinished false, o => o

namespace Reply

/-- The reply is finished or has failed. -/
def IsComplete (r : Reply) : Prop := r.outcome.status ≠ .pending

instance (r : Reply) : Decidable r.IsComplete :=
  inferInstanceAs (Decidable (_ ≠ _))

/-- The failure that the reply ended in. -/
def failure (r : Reply) : Failure := r.outcome.status.failure

/-- Changes the outcome of a reply: whether this could be done, and the reply then. That a reply was
complete already is logged. -/
def update (r : Reply) (change : Outcome → Outcome) : Logged (Bool × Reply) := do
  let (applied, outcome) := r.outcome.changeUnlessComplete change
  unless applied do
    Logged.emit (.lateUpdate r.slave)
  pure (applied, { r with outcome })

/-- Tells a reply something: whether its outcome has been touched, and the reply then. -/
def tell (r : Reply) : Action → Logged (Bool × Reply)
  | .setFinished false => pure (false, r)
  | a => r.update a.effect

/-- Tells a reply something. A complete reply keeps its outcome, and logs that it was told anything
at all. -/
def apply (r : Reply) (a : Action) : Logged Reply :=
  Prod.snd <$> r.tell a

/-- Tells a reply several things in order. -/
def applyAll (r : Reply) (actions : List Action) : Logged Reply :=
  actions.foldlM apply r

/-- The status of a reply that is complete. -/
def poll (r : Reply) : Option Status :=
  if r.IsComplete then some r.outcome.status else none

theorem isComplete_iff {r : Reply} : r.IsComplete ↔ r.outcome.isComplete = true := by
  simp [IsComplete, Outcome.isComplete]

theorem not_isComplete_iff {r : Reply} : ¬ r.IsComplete ↔ r.outcome.isComplete = false := by
  rw [isComplete_iff, Bool.not_eq_true]

theorem update_of_isComplete {r : Reply} (h : r.IsComplete) (change : Outcome → Outcome) :
    r.update change = ⟨(false, r), [.lateUpdate r.slave]⟩ := by
  rw [update, Outcome.changeUnlessComplete, if_pos (isComplete_iff.mp h)]
  rfl

theorem update_of_not_isComplete {r : Reply} (h : ¬ r.IsComplete) (change : Outcome → Outcome) :
    r.update change = pure (true, { r with outcome := change r.outcome }) := by
  rw [update, Outcome.changeUnlessComplete, if_neg (mt isComplete_iff.mpr h)]
  rfl

theorem value_tell_of_isComplete {r : Reply} (h : r.IsComplete) (a : Action) :
    (r.tell a).value = (false, r) := by
  unfold tell
  split
  · rfl
  · rw [update_of_isComplete h]

theorem apply_of_isComplete {r : Reply} (h : r.IsComplete) (a : Action) :
    (r.apply a).value = r := by
  rw [apply, Logged.value_map, value_tell_of_isComplete h]

theorem apply_of_not_isComplete {r : Reply} (h : ¬ r.IsComplete) (a : Action) :
    r.apply a = pure { r with outcome := a.effect r.outcome } := by
  unfold apply tell
  split
  · rfl
  · rw [update_of_not_isComplete h, map_pure]

@[simp] theorem applyAll_nil (r : Reply) : r.applyAll [] = pure r := rfl

@[simp] theorem applyAll_cons (r : Reply) (a : Action) (actions : List Action) :
    r.applyAll (a :: actions) = r.apply a >>= fun r => r.applyAll actions := rfl

theorem applyAll_of_isComplete {r : Reply} (h : r.IsComplete) (actions : List Action) :
    (r.applyAll actions).value = r := by
  induction actions with
  | nil => rfl
  | cons a actions ih => simp [apply_of_isComplete h, ih]

end Reply

end Modbus
