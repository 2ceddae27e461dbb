import Modbus.Proofs.Actions

/-!
# Waits in order of time

Whoever waits for a reply has to be woken when it is complete, and when the limit has passed. On
every executor that keeps its promises this comes to a plain order: `Reply.wait_happens_in_order`
says that a wait is what happens before the limit, then the limit, then what happens after it, for
the reply as well as for the log. `TimedAction.before` and `TimedAction.after` are the two parts of
a schedule, picked out by their delays; a schedule that is in order of time is one followed by the
other.
-/

namespace Modbus

namespace TimedAction

/-- The action happens before the limit; without a limit every action does. -/
def isBefore (limit : Option Nat) (t : TimedAction) : Bool :=
  limit.all fun ms => t.delay < ms

/-- The action happens after the limit; without a limit no action does. -/
def isAfter (limit : Option Nat) (t : TimedAction) : Bool :=
  limit.any fun ms => ms < t.delay

/-- The actions before the limit. -/
def before (limit : Option Nat) (schedule : List TimedAction) : List Action :=
  (schedule.filter (isBefore limit)).map TimedAction.action

/-- The actions after the limit. -/
def after (limit : Option Nat) (schedule : List TimedAction) : List Action :=
  (schedule.filter (isAfter limit)).map TimedAction.action

variable {limit : Option Nat} {t : TimedAction} {schedule : List TimedAction}

theorem beyond_cons_of_isWithin (h : t.IsWithin limit) :
    beyond limit (t :: schedule) = beyond limit schedule := by
  simp [beyond, h]

theorem beyond_cons_of_not_isWithin (h : ¬ t.IsWithin limit) :
    beyond limit (t :: schedule) = (t :: schedule).map TimedAction.action := by
  simp [beyond, h]

theorem isBefore_iff : isBefore limit t = true ↔ t.IsWithin limit := by
  cases limit <;> simp [isBefore, IsWithin]

/-- A delay that is neither within the limit nor the limit itself is past it. -/
theorem isAfter_of_not_isWithin (h : ¬ t.IsWithin limit) (hoff : limit ≠ some t.delay) :
    isAfter limit t = true := by
  cases limit with
  | none => exact absurd nofun h
  | some ms =>
    have hne : ms ≠ t.delay := fun heq => hoff (congrArg some heq)
    have hle : ms ≤ t.delay := by simpa [IsWithin] using h
    simpa [isAfter] using Nat.lt_of_le_of_ne hle hne

theorem not_isAfter_of_isWithin (h : t.IsWithin limit) : ¬ isAfter limit t = true := by
  cases limit with
  | none => exact nofun
  | some ms =>
    have hlt : t.delay < ms := by simpa [IsWithin] using h
    simpa [isAfter] using Nat.le_of_lt hlt

theorem not_isWithin_of_le {t' : TimedAction} (h : ¬ t.IsWithin limit)
    (hle : t.delay ≤ t'.delay) : ¬ t'.IsWithin limit :=
  fun h' => h fun ms hms => Nat.lt_of_le_of_lt hle (h' ms hms)

/-- In order of time, the actions before the limit are those up to the first that is not. -/
theorem before_eq_within (hsorted : schedule.Pairwise fun t t' => t.delay ≤ t'.delay) :
    before limit schedule = within limit schedule := by
  induction schedule with
  | nil => rfl
  | cons t schedule ih =>
    obtain ⟨hfirst, hrest⟩ := List.pairwise_cons.mp hsorted
    by_cases hwithin : t.IsWithin limit
    · have hbefore := isBefore_iff.mpr hwithin
      have hrest' := ih hrest
      rw [before] at hrest' ⊢
      rw [within_cons_of_isWithin hwithin, List.filter_cons_of_pos hbefore,
        List.map_cons, hrest']
    · have hnone : ∀ t' ∈ t :: schedule, ¬ isBefore limit t' = true := by
        intro t' ht' hbefore
        have hwithin' := isBefore_iff.mp hbefore
        rcases List.mem_cons.mp ht' with rfl | hlater
        · exact hwithin hwithin'
        · exact not_isWithin_of_le hwithin (hfirst t' hlater) hwithin'
      rw [within_cons_of_not_isWithin hwithin, before, List.filter_eq_nil_iff.mpr hnone]
      rfl

/-- In order of time, the actions after the limit are those from the first that is not before it,
if none falls on the limit itself. -/
theorem after_eq_beyond (hsorted : schedule.Pairwise fun t t' => t.delay ≤ t'.delay)
    (hoff : ∀ t ∈ schedule, limit ≠ some t.delay) :
    after limit schedule = beyond limit schedule := by
  induction schedule with
  | nil => rfl
  | cons t schedule ih =>
    obtain ⟨hfirst, hrest⟩ := List.pairwise_cons.mp hsorted
    by_cases hwithin : t.IsWithin limit
    · have hafter := not_isAfter_of_isWithin hwithin
      have hrest' := ih hrest fun t' ht' => hoff t' (List.mem_cons_of_mem t ht')
      rw [after] at hrest' ⊢
      rw [beyond_cons_of_isWithin hwithin, List.filter_cons_of_neg hafter, hrest']
    · have hall : ∀ t' ∈ t :: schedule, isAfter limit t' = true := by
        intro t' ht'
        have hlate : ¬ t'.IsWithin limit := by
          rcases List.mem_cons.mp ht' with rfl | hlater
          · exact hwithin
          · exact not_isWithin_of_le hwithin (hfirst t' hlater)
        exact isAfter_of_not_isWithin hlate (hoff t' ht')
      rw [beyond_cons_of_not_isWithin hwithin, after, List.filter_eq_self.mpr hall]

end TimedAction

namespace Reply

variable {r : Reply} {limit : Option Nat} {schedule : List TimedAction}

/-! ## The log of what a reply is told -/

theorem mem_log_apply {a : Action} {e : Event} (h : e ∈ (r.apply a).log) :
    e = .lateUpdate r.slave := by
  by_cases hcomplete : r.IsComplete
  · unfold apply tell at h
    split at h
    · cases h
    · rw [update_of_isComplete hcomplete, Logged.log_map] at h
      exact List.mem_singleton.mp h
  · rw [apply_of_not_isComplete hcomplete] at h
    cases h

/-- Telling a reply something is only ever logged as late. -/
theorem mem_log_applyAll {actions : List Action} {e : Event} (h : e ∈ (r.applyAll actions).log) :
    e = .lateUpdate r.slave := by
  induction actions generalizing r with
  | nil => cases h
  | cons a actions ih =>
    rw [applyAll_cons, Logged.log_bind] at h
    rcases List.mem_append.mp h with hfirst | hrest
    · exact mem_log_apply hfirst
    · have hslave : (r.apply a).value.slave = r.slave := by
        rw [value_apply_eq]
      rw [← hslave]
      exact ih hrest

/-- A timeout is in the log if it was logged at the limit: what a reply is told before and after
never logs one. -/
theorem exists_timedOut_mem_iff {first last : Reply} {before after : List Action}
    (h : limit = none → r.IsComplete) :
    (∃ ms, Event.timedOut r.slave ms ∈
        (first.applyAll before).log ++ r.limitLog limit ++ (last.applyAll after).log) ↔
      r.outcome.status = .pending := by
  have htold (q : Reply) (actions : List Action) (ms : Nat) :
      Event.timedOut r.slave ms ∉ (q.applyAll actions).log :=
    fun hmem => nomatch mem_log_applyAll hmem
  simp only [List.mem_append, htold, false_or, or_false, limitLog]
  constructor
  · rintro ⟨ms, hms⟩
    by_cases hpending : r.outcome.status = .pending
    · exact hpending
    · rw [if_neg hpending] at hms
      cases hms
  · intro hpending
    cases limit with
    | none => exact absurd hpending (h rfl)
    | some ms =>
      rw [if_pos hpending]
      exact ⟨ms, List.mem_singleton_self _⟩

/-! ## Waiting -/

/-- Waiting for a reply while the actions of a schedule happen, none of them at the very limit, is
what happens before the limit, then the limit itself, then the rest. The wait always ends; it tells
the status that the reply has at the limit, in which it is no longer pending, and the rest changes
nothing. The reply fails with a timeout, and this is logged, exactly if it was pending when the wait
began and nothing ends it before the limit. All this holds on any executor that is attentive, and
punctual for a limit of this length. -/
theorem wait_happens_in_order {ex : Executor} {longest : Nat} (hattentive : ex.IsAttentive)
    (hpunctual : ex.IsPunctual longest) (hlimit : ∀ ms ∈ limit, ms ≤ longest)
    (hsorted : schedule.Pairwise fun t t' => t.delay ≤ t'.delay)
    (hoff : ∀ t ∈ schedule, limit ≠ some t.delay)
    (hends : limit = none → r.IsComplete ∨ ∃ t ∈ schedule, t.action.ending? ≠ none) :
    let before := TimedAction.before limit schedule
    let after := TimedAction.after limit schedule
    let reached := (r.applyAll before).value
    let timesOut := r.outcome.status = .pending ∧ ∀ a ∈ before, a.ending? = none
    ∃ ended, r.waitOn ex limit schedule = some ended ∧
      ended.value.1 = reached.atLimit.outcome.status ∧ ended.value.1 ≠ .pending ∧
      ended.value.2 = (reached.atLimit.applyAll after).value ∧ ended.value.2 = reached.atLimit ∧
      (reached.atLimit ≠ reached ↔ timesOut) ∧
      ((∃ ms, .timedOut r.slave ms ∈ ended.log) ↔ timesOut) ∧
      ended.log = (r.applyAll before).log ++
        (if reached.outcome.status = .pending then limit.toList.map (.timedOut r.slave) else []) ++
        (reached.atLimit.applyAll after).log := by
  intro before after reached timesOut
  have hbefore : TimedAction.within limit schedule = before :=
    (TimedAction.before_eq_within hsorted).symm
  have hafter : TimedAction.beyond limit schedule = after :=
    (TimedAction.after_eq_beyond hsorted hoff).symm
  have hcomplete : limit = none → reached.IsComplete := by
    rintro rfl
    refine isComplete_applyAll_iff.mpr ((hends rfl).imp_right ?_)
    rintro ⟨t, ht, hending⟩
    have hall : t.action ∈ before := List.mem_map_of_mem (List.mem_filter.mpr ⟨ht, rfl⟩)
    exact ⟨t.action, hall, hending⟩
  have hpending : reached.outcome.status = .pending ↔ timesOut := pending_applyAll_iff
  have hslave : reached.slave = r.slave := slave_applyAll r before
  have hlast : (reached.atLimit.applyAll after).value = reached.atLimit :=
    applyAll_of_isComplete reached.isComplete_atLimit after
  have hlog : reached.limitLog limit =
      if reached.outcome.status = .pending then limit.toList.map (.timedOut r.slave) else [] := by
    rw [limitLog, hslave]
  have htimedOut := @exists_timedOut_mem_iff reached limit r reached.atLimit before after hcomplete
  have hwait := @wait_eq_some r limit schedule
  rw [hbefore, hafter] at hwait
  rw [waitOn_eq_wait hattentive hpunctual hlimit hoff, hwait hcomplete]
  refine ⟨_, rfl, rfl, reached.isComplete_atLimit, hlast.symm, rfl,
    atLimit_ne_iff.trans hpending, ?_, ?_⟩
  · rw [← hslave]
    exact htimedOut.trans hpending
  · rw [hlog]

/-- The response arrives in time, but the reply is only finished after the limit. -/
theorem success_after_the_limit_comes_too_late :
    let r : Reply := { kind := .common, slave := 3 }
    let schedule : List TimedAction :=
      [⟨5, .setResponse ⟨1, [1, 1]⟩⟩, ⟨30, .setFinished true⟩]
    Executor.virtual.IsAttentive ∧ Executor.virtual.IsPunctual 20 ∧
      schedule.Pairwise (fun t t' => t.delay ≤ t'.delay) ∧
      (∀ t ∈ schedule, some 20 ≠ some t.delay) ∧
      ∃ ended, r.wait (some 20) schedule = some ended ∧
        ended.value.1 = .failed ⟨.timeout, "Request timeout."⟩ ∧
        ended.value.2.outcome =
          { status := .failed ⟨.timeout, "Request timeout."⟩
            response := some ⟨1, [1, 1]⟩, result := none } ∧
        ended.log = [.timedOut 3 20, .lateUpdate 3] := by
  intro r schedule
  have hattentive := Executor.virtual_isAttentive
  have hpunctual := Executor.virtual_isPunctual 20
  have hlimit : ∀ ms ∈ some 20, ms ≤ 20 := by simp
  have hsorted : schedule.Pairwise fun t t' => t.delay ≤ t'.delay := by decide
  have hoff : ∀ t ∈ schedule, some 20 ≠ some t.delay := by decide
  obtain ⟨ended, hwait, hstatus, -, -, hreply, -, -, hlog⟩ :=
    @wait_happens_in_order r (some 20) schedule .virtual 20 hattentive hpunctual hlimit hsorted
      hoff nofun
  exact ⟨hattentive, hpunctual, hsorted, hoff, ended, hwait, hstatus,
    congrArg Reply.outcome hreply, hlog⟩

end Reply

end Modbus
