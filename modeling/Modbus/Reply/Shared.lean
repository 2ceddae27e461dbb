import Modbus.Reply.Wait

/-!
# Shared replies

The queue completes a reply that a caller waits for, so a reply has several handles. A handle knows
by itself what kind of reply it is for and from which server. The outcome is not its own: there is
one for all handles, and what is said through any of them is seen through every other.
-/

namespace Modbus

/-- What a handle knows by itself. -/
structure Handle where
  kind : ReplyKind
  slave : UInt8
  deriving DecidableEq, Repr

/-- The reply that a handle shows when the outcome is `outcome`. -/
def Handle.view (h : Handle) (outcome : Outcome) : Reply :=
  { kind := h.kind, slave := h.slave, outcome }

/-- What the handle that shows a reply knows by itself. -/
def Reply.handle (r : Reply) : Handle := { kind := r.kind, slave := r.slave }

/-- A reply as its first handle shows it, and the handles that were made later, oldest first. -/
structure SharedReply where
  reply : Reply
  copies : List Handle := []
  deriving DecidableEq, Repr

namespace SharedReply

/-- What can be done through a handle. -/
inductive Step
  /-- Makes another handle. -/
  | share
  /-- Tells the reply something. -/
  | act (a : Action)
  /-- Asks whether the reply is complete. -/
  | poll
  /-- Waits for the reply. -/
  | wait (limit : Option Nat) (schedule : List TimedAction)
  deriving DecidableEq, Repr

/-- What a step answers. -/
inductive Answer
  | shared (handle : Nat)
  | done
  | polled (status : Option Status)
  | waited (status : Status)
  deriving DecidableEq, Repr

/-- What each handle shows. -/
def views (s : SharedReply) : List Reply :=
  s.reply :: s.copies.map fun h => h.view s.reply.outcome

theorem length_views (s : SharedReply) : s.views.length = s.copies.length + 1 := by
  simp [views]

/-- The same handles, with another outcome. -/
def withOutcome (s : SharedReply) (outcome : Outcome) : SharedReply :=
  { s with reply := { s.reply with outcome } }

/-- Does a step through the handle that shows `r`. An endless wait answers nothing. -/
def step (s : SharedReply) (r : Reply) : Step → Logged (Option Answer × SharedReply)
  | .share =>
    pure (some (.shared s.views.length), { s with copies := s.copies ++ [r.handle] })
  | .act a => do
    let r ← r.apply a
    pure (some .done, s.withOutcome r.outcome)
  | .poll => pure (some (.polled r.poll), s)
  | .wait limit schedule =>
    match r.wait limit schedule with
    | some ended => do
      let (status, r) ← ended
      pure (some (.waited status), s.withOutcome r.outcome)
    | none => pure (none, s)

/-- Does a step through one of the handles, which are counted from zero; there is nothing to do
through any other. -/
def stepAt (s : SharedReply) (handle : Nat) (st : Step) : Logged (Option Answer × SharedReply) :=
  match s.views[handle]? with
  | some r => s.step r st
  | none => pure (none, s)

/-- Does steps one after the other, each through a handle: the answer of each, and the reply with
its handles at the end. -/
def run (s : SharedReply) : List (Nat × Step) → Logged (List (Option Answer) × SharedReply)
  | [] => pure ([], s)
  | (handle, st) :: steps => do
    let (answer, s) ← s.stepAt handle st
    let (answers, s) ← s.run steps
    pure (answer :: answers, s)

end SharedReply

end Modbus
