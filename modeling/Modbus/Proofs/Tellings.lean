import Modbus.Proofs.Lines
import Modbus.Proofs.Schedules
import Modbus.Proofs.Steps

/-!
# What a reply is told too late

What happens to a reply is a list of `Reply.tellings`: each action together with the reply that it
finds. An action comes late, `Telling.IsLate`, if it finds the reply complete and says something.

A reply logs exactly the actions that come late (`Reply.log_applyAll`). So does a wait, with one
line of its own for the limit (`Reply.late_waitLog`); what it tells the reply, the failure at the
limit included, is `Reply.waitActions`.
-/

namespace Modbus

/-! ## Late actions -/

/-- An action that a reply is told, and the reply before. -/
structure Telling where
  reply : Reply
  action : Action

/-- The reply was complete already, and the action says something. -/
def Telling.IsLate (t : Telling) : Prop := t.reply.IsComplete ∧ t.action ≠ .setFinished false

instance (t : Telling) : Decidable t.IsLate :=
  inferInstanceAs (Decidable (_ ∧ _))

/-- The servers of the replies that were told something too late, in order. -/
def Telling.lateSlaves (tellings : List Telling) : List UInt8 :=
  (tellings.filter fun t => t.IsLate).map fun t => t.reply.slave

theorem Telling.lateSlaves_append (first second : List Telling) :
    lateSlaves (first ++ second) = lateSlaves first ++ lateSlaves second := by
  rw [lateSlaves, List.filter_append, List.map_append]
  rfl

namespace Reply

/-- What each of the actions that a reply is told one after the other finds. -/
def tellings (r : Reply) : List Action → List Telling
  | [] => []
  | a :: actions => ⟨r, a⟩ :: (r.apply a).value.tellings actions

variable {r : Reply} {actions : List Action}

theorem tellings_append (r : Reply) (first second : List Action) :
    r.tellings (first ++ second) =
      r.tellings first ++ (r.applyAll first).value.tellings second := by
  induction first generalizing r with
  | nil => rfl
  | cons a first ih =>
    rw [List.cons_append, tellings, tellings, ih]
    rfl

theorem tellings_of_isComplete (h : r.IsComplete) (actions : List Action) :
    r.tellings actions = actions.map (Telling.mk r) := by
  induction actions with
  | nil => rfl
  | cons a actions ih => rw [tellings, apply_of_isComplete h, ih, List.map_cons]

/-- Of the actions up to the first that ends a reply none comes late. -/
theorem lateSlaves_tellings_of_pending (h : ¬ r.IsComplete) {front : List Action}
    (hfront : ∀ a ∈ front, a.ending? = none) (last : Action) :
    Telling.lateSlaves (r.tellings (front ++ [last])) = [] := by
  induction front generalizing r with
  | nil => simp [tellings, Telling.lateSlaves, Telling.IsLate, h]
  | cons a front ih =>
    -- `a` ends nothing, so the reply is pending when the next action comes.
    have hstill : ¬ (r.apply a).value.IsComplete := by
      rw [apply_of_not_isComplete h, Logged.value_pure, IsComplete,
        Action.effect_of_no_ending (hfront a List.mem_cons_self)]
      exact h
    have hrest := ih hstill fun b hb => hfront b (List.mem_cons_of_mem a hb)
    rw [Telling.lateSlaves] at hrest ⊢
    rw [List.cons_append, tellings, List.filter_cons_of_neg (by simp [Telling.IsLate, h]), hrest]

theorem log_apply (r : Reply) (a : Action) :
    (r.apply a).log = if Telling.IsLate ⟨r, a⟩ then [.lateUpdate r.slave] else [] := by
  by_cases hcomplete : r.IsComplete
  · unfold apply tell
    split
    · simp [Telling.IsLate]
    · rename_i hfinished
      have hlate : Telling.IsLate ⟨r, a⟩ := ⟨hcomplete, hfinished⟩
      rw [update_of_isComplete hcomplete, if_pos hlate, Logged.log_map]
  · rw [apply_of_not_isComplete hcomplete, if_neg fun hlate => hcomplete hlate.1]
    rfl

/-- Each action that comes late is logged, and nothing else is. -/
theorem log_applyAll (r : Reply) (actions : List Action) :
    (r.applyAll actions).log = (Telling.lateSlaves (r.tellings actions)).map .lateUpdate := by
  induction actions generalizing r with
  | nil => rfl
  | cons a actions ih =>
    rw [applyAll_cons, Logged.log_bind, ih, log_apply, tellings, Telling.lateSlaves,
      Telling.lateSlaves, List.filter_cons]
    by_cases hlate : Telling.IsLate ⟨r, a⟩ <;> simp [hlate]

theorem applyAll_singleton (r : Reply) (a : Action) : r.applyAll [a] = r.apply a := by
  simp

theorem late_applyAll (r : Reply) (actions : List Action) :
    (r.applyAll actions).log.filterMap Event.late? = Telling.lateSlaves (r.tellings actions) := by
  simp [log_applyAll, List.filterMap_map, Function.comp_def, Event.late?]

theorem filterMap_log_applyAll {α : Type} {pick : Event → Option α}
    (hlate : ∀ slave, pick (.lateUpdate slave) = none) (r : Reply) (actions : List Action) :
    (r.applyAll actions).log.filterMap pick = [] := by
  simp [log_applyAll, List.filterMap_map, hlate]

/-! ## Waits -/

/-- What a reply is told at the limit of a wait: that it has failed, if it is still pending. -/
def expiry (r : Reply) (limit : Option Nat) : List Action :=
  if r.IsComplete then [] else limit.toList.map fun _ => .setFailure .timeout

/-- All that a reply is told during a wait: what happens before the limit, what happens at it, and
the rest. A wait that would never end tells nothing. -/
def waitActions (r : Reply) (limit : Option Nat) (schedule : List TimedAction) : List Action :=
  let first := TimedAction.within limit schedule
  if (r.wait limit schedule).isSome then
    first ++ (r.applyAll first).value.expiry limit ++ TimedAction.beyond limit schedule
  else []

variable {limit : Option Nat}

theorem value_applyAll_expiry (h : limit = none → r.IsComplete) :
    (r.applyAll (r.expiry limit)).value = r.atLimit := by
  by_cases hcomplete : r.IsComplete
  · rw [applyAll_of_isComplete hcomplete, atLimit_of_isComplete hcomplete]
  · rw [expiry, if_neg hcomplete, atLimit, if_pos (Decidable.not_not.mp hcomplete)]
    cases limit with
    | none => exact absurd (h rfl) hcomplete
    | some ms => exact value_applyAll_cons hcomplete _ []

/-- A wait leaves behind what comes of all that the reply is told. -/
theorem value_applyAll_waitActions (r : Reply) (limit : Option Nat)
    (schedule : List TimedAction) :
    (r.applyAll (r.waitActions limit schedule)).value = r.waited limit schedule := by
  unfold waitActions waited
  cases h : r.wait limit schedule with
  | none => rfl
  | some ended =>
    -- Past the limit the reply is complete, and the rest of the schedule does not change it.
    simp only [Option.isSome_some, if_true, value_applyAll_append,
      value_applyAll_expiry (isComplete_of_wait h)]
    rw [applyAll_of_isComplete (isComplete_atLimit _), value_wait h]

/-- That a reply has failed at the limit of a wait never comes late. -/
theorem lateSlaves_tellings_expiry (r : Reply) (limit : Option Nat) :
    Telling.lateSlaves (r.tellings (r.expiry limit)) = [] := by
  by_cases hcomplete : r.IsComplete
  · rw [expiry, if_pos hcomplete]
    rfl
  · rw [expiry, if_neg hcomplete]
    cases limit with
    | none => rfl
    | some ms =>
      have hfront : ∀ a ∈ ([] : List Action), a.ending? = none := nofun
      exact lateSlaves_tellings_of_pending hcomplete hfront (.setFailure .timeout)

/-- Nothing but the limit itself is logged when the limit passes. -/
theorem filterMap_limitLog {α : Type} {pick : Event → Option α}
    (htimeout : ∀ slave ms, pick (.timedOut slave ms) = none) (r : Reply) (limit : Option Nat) :
    (r.limitLog limit).filterMap pick = [] := by
  rw [limitLog]
  split <;> simp [List.filterMap_map, htimeout]

/-- What a wait logs; one that would never end logs nothing. -/
def waitLog (r : Reply) (limit : Option Nat) (schedule : List TimedAction) : List Event :=
  (r.wait limit schedule).elim [] Logged.log

theorem late_waitLog (r : Reply) (limit : Option Nat) (schedule : List TimedAction) :
    (r.waitLog limit schedule).filterMap Event.late? =
      Telling.lateSlaves (r.tellings (r.waitActions limit schedule)) := by
  have htimeout : ∀ slave ms, Event.late? (.timedOut slave ms) = none := fun _ _ => rfl
  unfold waitLog waitActions
  cases h : r.wait limit schedule with
  | none => rfl
  | some ended =>
    simp only [Option.elim_some, Option.isSome_some, if_true, log_wait h, List.filterMap_append,
      filterMap_limitLog htimeout, late_applyAll, tellings_append, value_applyAll_append,
      value_applyAll_expiry (isComplete_of_wait h), Telling.lateSlaves_append,
      lateSlaves_tellings_expiry]

theorem filterMap_waitLog {α : Type} {pick : Event → Option α}
    (hlate : ∀ slave, pick (.lateUpdate slave) = none)
    (htimeout : ∀ slave ms, pick (.timedOut slave ms) = none) (r : Reply) (limit : Option Nat)
    (schedule : List TimedAction) : (r.waitLog limit schedule).filterMap pick = [] := by
  unfold waitLog
  cases h : r.wait limit schedule with
  | none => rfl
  | some ended =>
    rw [Option.elim_some, log_wait h]
    simp only [List.filterMap_append, filterMap_log_applyAll hlate, filterMap_limitLog htimeout,
      List.append_nil]

end Reply

end Modbus
