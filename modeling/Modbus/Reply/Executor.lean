import Modbus.Reply.Basic

/-!
# What waiting relies on

A reply that is waited for does not itself know how to wait. Two things are done for it outside of
this library, by the executor that runs the program: to wait until a value that others change meets
a condition, and to give up on a computation after a while. An `Executor` is anything that decides
these two questions. How it does so is not said here, only what it promises:

* `Executor.IsAttentive`: a condition is looked at at once, and again whenever a value is sent;
* `Executor.IsPunctual`: a limit that is not too long passes when it should.

Both leave open what is not promised. A value may be missed if others are sent right behind it, a
computation that is ready at the very moment of its limit may count as in time or as late, and there
is a longest limit that is kept to. `Executor.virtual` keeps both promises, on a clock that only
moves when nothing else is left to do.

Moments are whole milliseconds from the beginning of a wait.
-/

namespace Modbus

/-- A computation that may have to wait for others: the moment when its value is there. -/
inductive Future (α : Type)
  /-- The value is there from the beginning. -/
  | ready (value : α)
  /-- The value is there after `delay` milliseconds. -/
  | later (delay : Nat) (value : α)
  | never
  deriving DecidableEq, Repr

namespace Future

variable {α β : Type}

/-- Goes on with the value of a computation at the moment when it is there. -/
def andThen (f : Nat → α → β) : Future α → Future β
  | ready value => ready (f 0 value)
  | later delay value => later delay (f delay value)
  | never => never

/-- The value, unless it never is there. -/
def value? : Future α → Option α
  | ready value => some value
  | later _ value => some value
  | never => none

end Future

/-- How a computation with a time limit ends. -/
inductive Ending (α : Type)
  /-- It has come to a value. -/
  | completed (value : α)
  /-- The limit has passed, after `delay` milliseconds. -/
  | elapsed (delay : Nat)
  deriving DecidableEq, Repr

/-- An outcome that those who wait for a reply are sent, `delay` milliseconds into a wait. -/
structure Notice where
  delay : Nat
  outcome : Outcome
  deriving DecidableEq, Repr

/-- What is decided outside of the library while a reply is waited for. -/
structure Executor where
  /-- Waits until an outcome meets a condition, the current one or one of those that are sent: that
  outcome, or `none` when nobody is left to send any. -/
  waitFor : (Outcome → Bool) → Outcome → List Notice → Future (Option Outcome)
  /-- Waits for a computation for a limited number of milliseconds. -/
  timeout : Nat → Future Status → Ending Status

namespace Executor

/-! ## What an executor promises -/

/-- What is promised of waiting until a condition is met, as long as somebody is left who could send
an outcome. -/
structure IsAttentive (ex : Executor) : Prop where
  /-- The current outcome is looked at first. -/
  waitFor_current : ∀ {p : Outcome → Bool} {current : Outcome} (sent : List Notice),
    p current = true → ex.waitFor p current sent = .ready (some current)
  /-- The outcome that is sent last cannot be missed. -/
  waitFor_last : ∀ {p : Outcome → Bool} {current : Outcome} {sent : List Notice} {last : Notice},
    (sent ++ [last]).Pairwise (fun n n' => n.delay ≤ n'.delay) → p current = false →
      (∀ n ∈ sent, p n.outcome = false) → p last.outcome = true →
        ex.waitFor p current (sent ++ [last]) = .later last.delay (some last.outcome)
  /-- Only outcomes that meet the condition end the wait. -/
  waitFor_none : ∀ {p : Outcome → Bool} {current : Outcome} {sent : List Notice},
    p current = false → (∀ n ∈ sent, p n.outcome = false) → ex.waitFor p current sent = .never

/-- What is promised of limits of at most `longest` milliseconds. -/
structure IsPunctual (ex : Executor) (longest : Nat) : Prop where
  /-- The computation comes before the limit, even if the limit is zero. -/
  timeout_ready : ∀ (limit : Nat) (status : Status),
    ex.timeout limit (.ready status) = .completed status
  timeout_before : ∀ {limit delay : Nat} (status : Status), limit ≤ longest → delay < limit →
    ex.timeout limit (.later delay status) = .completed status
  timeout_after : ∀ {limit delay : Nat} (status : Status), limit ≤ longest → limit < delay →
    ex.timeout limit (.later delay status) = .elapsed limit
  timeout_never : ∀ {limit : Nat}, limit ≤ longest → ex.timeout limit .never = .elapsed limit

/-! ## The virtual clock -/

/-- The executor on a virtual clock, which is set to the next moment when there is nothing left to
do at this one. A limit passes before anything else happens at its moment. -/
def virtual : Executor where
  waitFor p current sent :=
    if p current then .ready (some current)
    else
      match sent.find? fun n => p n.outcome with
      | some n => .later n.delay (some n.outcome)
      | none => .never
  timeout limit
    | .ready status => .completed status
    | .later delay status => if delay < limit then .completed status else .elapsed limit
    | .never => .elapsed limit

theorem find?_notice_eq_none {p : Outcome → Bool} {sent : List Notice}
    (h : ∀ n ∈ sent, p n.outcome = false) : sent.find? (fun n => p n.outcome) = none :=
  List.find?_eq_none.mpr fun n hn => by simp [h n hn]

theorem virtual_isAttentive : virtual.IsAttentive where
  waitFor_current _ h := if_pos h
  waitFor_last {p current sent last} _ hcurrent hsent hlast := by
    simp [virtual, hcurrent, List.find?_append, find?_notice_eq_none hsent, hlast]
  waitFor_none {p current sent} hcurrent hsent := by
    simp [virtual, hcurrent, find?_notice_eq_none hsent]

theorem virtual_isPunctual (longest : Nat) : virtual.IsPunctual longest where
  timeout_ready _ _ := rfl
  timeout_before _ _ h := if_pos h
  timeout_after _ _ h := if_neg (Nat.not_lt.mpr (Nat.le_of_lt h))
  timeout_never _ := rfl

/-- Punctual executors agree on limits up to the longest, except about what is ready at the very
moment of the limit. -/
theorem IsPunctual.timeout_eq_virtual {ex : Executor} {longest limit : Nat} {future : Future Status}
    (h : ex.IsPunctual longest) (hlimit : limit ≤ longest)
    (hoff : ∀ status, future ≠ .later limit status) :
    ex.timeout limit future = virtual.timeout limit future := by
  have hvirtual := virtual_isPunctual longest
  cases future with
  | ready status => rw [h.timeout_ready, hvirtual.timeout_ready]
  | later delay status =>
    rcases Nat.lt_trichotomy delay limit with hlt | heq | hgt
    · rw [h.timeout_before status hlimit hlt, hvirtual.timeout_before status hlimit hlt]
    · exact absurd (heq ▸ rfl) (hoff status)
    · rw [h.timeout_after status hlimit hgt, hvirtual.timeout_after status hlimit hgt]
  | never => rw [h.timeout_never hlimit, hvirtual.timeout_never hlimit]

end Executor

end Modbus
