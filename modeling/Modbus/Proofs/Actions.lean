import Modbus.Proofs.Waiting

/-!
# What a list of actions comes to

Some actions end a reply, the others only add to what it has gathered. The first action of a list
that ends the reply settles all of its outcome: its status is the one that this action brings, and
the response and the result are the last ones told before it. `Reply.outcome_applyAll_of_ending`
says so, `Reply.outcome_applyAll_of_no_ending` says what there is before such an action has come,
and `Reply.pending_applyAll_iff` tells the two cases apart.
-/

namespace Modbus

namespace Action

/-- The status that an action ends a pending reply with, if it ends it. -/
def ending? : Action → Option Status
  | setFailure f => some (.failed f)
  | setFinished true => some .finished
  | setResponse _ | setResult _ | setFinished false => none

/-- The response that an action tells of. -/
def response? : Action → Option Response
  | setResponse r => some r
  | setResult _ | setFailure _ | setFinished _ => none

/-- The result that an action tells of. -/
def result? : Action → Option DataUnit
  | setResult u => some u
  | setResponse _ | setFailure _ | setFinished _ => none

/-- The response that a list of actions tells of last. -/
def lastResponse? (actions : List Action) : Option Response :=
  actions.reverse.findSome? response?

/-- The result that a list of actions tells of last. -/
def lastResult? (actions : List Action) : Option DataUnit :=
  actions.reverse.findSome? result?

variable {a : Action} {status : Status}

theorem effect_of_ending (h : a.ending? = some status) (o : Outcome) :
    a.effect o = { o with status } := by
  cases a with
  | setResponse r => cases h
  | setResult u => cases h
  | setFailure f =>
    cases h
    rfl
  | setFinished finished =>
    cases finished with
    | false => cases h
    | true =>
      cases h
      rfl

theorem effect_of_no_ending (h : a.ending? = none) (o : Outcome) :
    a.effect o =
      { o with response := a.response?.or o.response, result := a.result?.or o.result } := by
  cases a with
  | setResponse r => rfl
  | setResult u => rfl
  | setFailure f => cases h
  | setFinished finished =>
    cases finished with
    | false => rfl
    | true => cases h

theorem ending_ne_pending (h : a.ending? = some status) : status ≠ .pending := by
  cases a with
  | setResponse r => cases h
  | setResult u => cases h
  | setFailure f =>
    cases h
    exact nofun
  | setFinished finished =>
    cases finished with
    | false => cases h
    | true =>
      cases h
      exact nofun

theorem reverse_findSome?_cons_or {α : Type} (f : Action → Option α) (a : Action)
    (actions : List Action) (x : Option α) :
    ((a :: actions).reverse.findSome? f).or x =
      (actions.reverse.findSome? f).or ((f a).or x) := by
  rw [List.reverse_cons, List.findSome?_append, Option.or_assoc, List.findSome?_singleton]

end Action

namespace Reply

variable {r : Reply} {actions : List Action}

/-! ## What never changes -/

theorem value_apply_eq (r : Reply) (a : Action) :
    (r.apply a).value = { r with outcome := (r.apply a).value.outcome } := by
  by_cases hcomplete : r.IsComplete
  · rw [apply_of_isComplete hcomplete]
  · rw [apply_of_not_isComplete hcomplete]
    rfl

/-- Whatever a reply is told, only its outcome can change. -/
theorem value_applyAll_eq (r : Reply) (actions : List Action) :
    (r.applyAll actions).value = { r with outcome := (r.applyAll actions).value.outcome } := by
  induction actions generalizing r with
  | nil => rfl
  | cons a actions ih =>
    rw [applyAll_cons, Logged.value_bind, ih, value_apply_eq]

theorem slave_applyAll (r : Reply) (actions : List Action) :
    (r.applyAll actions).value.slave = r.slave := by
  rw [value_applyAll_eq]

/-! ## What changes -/

/-- As long as nothing ends it, a reply gathers what it is told last. -/
theorem value_applyAll_of_no_ending (hpending : ¬ r.IsComplete)
    (hnone : ∀ a ∈ actions, a.ending? = none) :
    (r.applyAll actions).value =
      { r with outcome :=
        { r.outcome with
          response := (Action.lastResponse? actions).or r.outcome.response
          result := (Action.lastResult? actions).or r.outcome.result } } := by
  induction actions generalizing r with
  | nil => rfl
  | cons a actions ih =>
    have ha : a.ending? = none := hnone a List.mem_cons_self
    have hrest : ∀ b ∈ actions, b.ending? = none :=
      fun b hb => hnone b (List.mem_cons_of_mem a hb)
    have heffect := Action.effect_of_no_ending ha r.outcome
    have hstill : ¬ Reply.IsComplete { r with outcome := a.effect r.outcome } := by
      rw [heffect]
      exact hpending
    have hresponse := Action.reverse_findSome?_cons_or Action.response? a actions r.outcome.response
    have hresult := Action.reverse_findSome?_cons_or Action.result? a actions r.outcome.result
    rw [value_applyAll_cons hpending, ih hstill hrest, heffect]
    simp only [Action.lastResponse?, Action.lastResult?, hresponse, hresult]

/-- A new reply that nothing has ended is pending, with the response and the result told last. -/
theorem outcome_applyAll_of_no_ending (hnew : r.outcome = {})
    (hnone : ∀ a ∈ actions, a.ending? = none) :
    (r.applyAll actions).value.outcome =
      { status := .pending
        response := Action.lastResponse? actions
        result := Action.lastResult? actions } := by
  have hpending : ¬ r.IsComplete := by
    rw [IsComplete, hnew]
    exact fun h => h rfl
  rw [value_applyAll_of_no_ending hpending hnone]
  simp only [hnew, Option.or_none]

/-- The first action that ends a reply decides its outcome, whatever it is told afterwards. -/
theorem value_applyAll_of_ending (hpending : ¬ r.IsComplete) {before after : List Action}
    {a : Action} {status : Status} (hbefore : ∀ b ∈ before, b.ending? = none)
    (ha : a.ending? = some status) :
    (r.applyAll (before ++ a :: after)).value =
      { r with outcome :=
        { status
          response := (Action.lastResponse? before).or r.outcome.response
          result := (Action.lastResult? before).or r.outcome.result } } := by
  have hreached := value_applyAll_of_no_ending hpending hbefore
  have hstill : ¬ (r.applyAll before).value.IsComplete := by
    rw [hreached]
    exact hpending
  have hended : ((r.applyAll before).value.apply a).value =
      { r with outcome :=
        { status
          response := (Action.lastResponse? before).or r.outcome.response
          result := (Action.lastResult? before).or r.outcome.result } } := by
    rw [apply_of_not_isComplete hstill, Logged.value_pure, Action.effect_of_ending ha, hreached]
  have hcomplete : ((r.applyAll before).value.apply a).value.IsComplete := by
    rw [hended]
    exact Action.ending_ne_pending ha
  rw [value_applyAll_append, applyAll_cons, Logged.value_bind, applyAll_of_isComplete hcomplete,
    hended]

theorem outcome_applyAll_of_ending (hnew : r.outcome = {}) {before after : List Action}
    {a : Action} {status : Status} (hbefore : ∀ b ∈ before, b.ending? = none)
    (ha : a.ending? = some status) :
    (r.applyAll (before ++ a :: after)).value.outcome =
      { status
        response := Action.lastResponse? before
        result := Action.lastResult? before } := by
  have hpending : ¬ r.IsComplete := by
    rw [IsComplete, hnew]
    exact fun h => h rfl
  rw [value_applyAll_of_ending hpending hbefore ha]
  simp only [hnew, Option.or_none]

/-- A reply is still pending after a list of actions if it was before and none of them ends it. -/
theorem isComplete_applyAll_iff :
    (r.applyAll actions).value.IsComplete ↔ r.IsComplete ∨ ∃ a ∈ actions, a.ending? ≠ none := by
  by_cases hcomplete : r.IsComplete
  · rw [applyAll_of_isComplete hcomplete]
    exact iff_of_true hcomplete (.inl hcomplete)
  · induction actions generalizing r with
    | nil => simp
    | cons a actions ih =>
      rw [value_applyAll_cons hcomplete]
      cases ha : a.ending? with
      | none =>
        have hstill : ¬ Reply.IsComplete { r with outcome := a.effect r.outcome } := by
          rw [Action.effect_of_no_ending ha]
          exact hcomplete
        rw [ih hstill]
        simp [hstill, hcomplete, ha]
      | some status =>
        have hended : Reply.IsComplete { r with outcome := a.effect r.outcome } := by
          rw [Action.effect_of_ending ha]
          exact Action.ending_ne_pending ha
        rw [applyAll_of_isComplete hended]
        refine iff_of_true hended (.inr ⟨a, List.mem_cons_self, ?_⟩)
        rw [ha]
        exact nofun

theorem pending_applyAll_iff :
    (r.applyAll actions).value.outcome.status = .pending ↔
      r.outcome.status = .pending ∧ ∀ a ∈ actions, a.ending? = none := by
  have hiff := not_congr (@isComplete_applyAll_iff r actions)
  simpa [IsComplete] using hiff

/-- Asking tells the status of a reply, except that nothing is told of a pending one. -/
theorem status_eq_poll (r : Reply) : r.outcome.status = r.poll.getD .pending := by
  by_cases hcomplete : r.IsComplete
  · rw [poll, if_pos hcomplete]
    rfl
  · rw [poll, if_neg hcomplete]
    exact Decidable.not_not.mp hcomplete

/-- Asking a new reply tells which action has ended it, if one has. -/
theorem poll_applyAll (hnew : r.outcome = {}) :
    (r.applyAll actions).value.poll = actions.findSome? Action.ending? := by
  cases hending : actions.findSome? Action.ending? with
  | none =>
    have hnone : ∀ a ∈ actions, a.ending? = none := List.findSome?_eq_none_iff.mp hending
    have hpending : ¬ (r.applyAll actions).value.IsComplete := by
      rw [IsComplete, outcome_applyAll_of_no_ending hnew hnone]
      exact fun h => h rfl
    rw [poll, if_neg hpending]
  | some status =>
    obtain ⟨before, a, after, rfl, ha, hbefore⟩ := List.findSome?_eq_some_iff.mp hending
    have houtcome : (r.applyAll (before ++ a :: after)).value.outcome = _ :=
      outcome_applyAll_of_ending hnew hbefore ha
    have hcomplete : (r.applyAll (before ++ a :: after)).value.IsComplete := by
      rw [IsComplete, houtcome]
      exact Action.ending_ne_pending ha
    rw [poll, if_pos hcomplete, houtcome]

end Reply

end Modbus
