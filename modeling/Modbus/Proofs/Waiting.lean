import Modbus.Reply.Wait

/-!
# Waits as sequences of actions

A waiting caller only learns what it is sent, and the executor says who comes first, the reply or
the limit. For the reply that comes out of a wait none of this matters. `Reply.IsEnd` says what the
caller is sent when the schedule completes the reply: the last notice is the only one of a complete
reply, and it comes before a limit exactly if the actions within that limit complete the reply. So
all attentive executors agree on when the reply is complete (`Reply.exists_finishes`), all punctual
ones on which comes first (`Reply.waitOn_eq_wait`), and a wait on the virtual clock is what happens
within the limit, then the limit, then the rest, which finds the reply complete
(`Reply.wait_eq_some`).
-/

namespace Modbus

namespace TimedAction

variable {limit : Option Nat} {t : TimedAction} {schedule : List TimedAction}

theorem within_cons_of_isWithin (h : t.IsWithin limit) :
    within limit (t :: schedule) = t.action :: within limit schedule := by
  simp [within, h]

theorem within_cons_of_not_isWithin (h : ¬ t.IsWithin limit) :
    within limit (t :: schedule) = [] := by
  simp [within, h]

theorem within_append_of_isWithin {front : List TimedAction} (h : ∀ t ∈ front, t.IsWithin limit) :
    within limit (front ++ schedule) = front.map TimedAction.action ++ within limit schedule := by
  induction front with
  | nil => rfl
  | cons t front ih =>
    rw [List.cons_append, within_cons_of_isWithin (h t List.mem_cons_self),
      ih fun t' ht' => h t' (List.mem_cons_of_mem t ht')]
    rfl

theorem within_append_beyond (limit : Option Nat) (schedule : List TimedAction) :
    within limit schedule ++ beyond limit schedule = schedule.map TimedAction.action := by
  rw [within, beyond, ← List.map_append, List.takeWhile_append_dropWhile]

theorem within_zero (schedule : List TimedAction) : within (some 0) schedule = [] := by
  cases schedule <;> simp [within, IsWithin]

theorem within_none (schedule : List TimedAction) :
    within none schedule = schedule.map TimedAction.action := by
  induction schedule with
  | nil => rfl
  | cons t schedule ih => rw [within_cons_of_isWithin (by simp [IsWithin]), ih, List.map_cons]

end TimedAction

namespace Reply

variable {ex : Executor} {r : Reply} {limit : Option Nat} {schedule : List TimedAction}

/-! ## What a reply is told in order -/

/-- A pending reply does what it is told. -/
theorem value_applyAll_cons {r : Reply} (h : ¬ r.IsComplete) (a : Action) (actions : List Action) :
    (r.applyAll (a :: actions)).value =
      (applyAll { r with outcome := a.effect r.outcome } actions).value := by
  rw [applyAll_cons, Logged.value_bind, apply_of_not_isComplete h, Logged.value_pure]

theorem applyAll_append (r : Reply) (first second : List Action) :
    r.applyAll (first ++ second) = r.applyAll first >>= fun r => r.applyAll second := by
  rw [applyAll, List.foldlM_append]
  rfl

theorem value_applyAll_append (r : Reply) (first second : List Action) :
    (r.applyAll (first ++ second)).value = ((r.applyAll first).value.applyAll second).value := by
  rw [applyAll_append, Logged.value_bind]

/-- A reply that is complete within the limit stays as it then is. -/
theorem value_applyAll_of_within
    (h : (r.applyAll (TimedAction.within limit schedule)).value.IsComplete) :
    (r.applyAll (schedule.map TimedAction.action)).value =
      (r.applyAll (TimedAction.within limit schedule)).value := by
  rw [← TimedAction.within_append_beyond limit, value_applyAll_append, applyAll_of_isComplete h]

/-! ## What a waiting caller is sent -/

theorem noticesOf_of_isComplete (h : r.IsComplete) (moment : Nat) (a : Action) :
    r.noticesOf moment a = [] := by
  rw [noticesOf, value_tell_of_isComplete h]
  rfl

/-- The action that completes a reply is noticed. -/
theorem noticesOf_of_completes {a : Action} (hpending : ¬ r.IsComplete)
    (hcomplete : (r.apply a).value.IsComplete) (moment : Nat) :
    r.noticesOf moment a = [⟨moment, (r.apply a).value.outcome⟩] := by
  unfold apply tell at hcomplete
  unfold noticesOf apply tell
  split at hcomplete
  · exact absurd hcomplete hpending
  · rw [update_of_not_isComplete hpending]
    rfl

/-- An action that leaves a reply pending may be noticed, but not as that of a complete reply. -/
theorem pending_of_mem_noticesOf {a : Action} {moment : Nat} {n : Notice}
    (hpending : ¬ (r.apply a).value.IsComplete) (h : n ∈ r.noticesOf moment a) :
    n.outcome.isComplete = false := by
  simp only [noticesOf] at h
  split at h
  · rw [List.mem_singleton.mp h]
    exact not_isComplete_iff.mp hpending
  · cases h

theorem notices_of_isComplete (h : r.IsComplete) (moment : Nat) (schedule : List TimedAction) :
    r.notices moment schedule = [] := by
  induction schedule generalizing moment with
  | nil => rfl
  | cons t schedule ih =>
    rw [notices, noticesOf_of_isComplete h, apply_of_isComplete h, ih]
    rfl

theorem delay_of_mem_noticesOf {a : Action} {moment : Nat} {n : Notice}
    (h : n ∈ r.noticesOf moment a) : n.delay = moment := by
  simp only [noticesOf] at h
  split at h
  · rw [List.mem_singleton.mp h]
  · cases h

theorem le_delay_of_mem_notices {moment : Nat} {n : Notice} (h : n ∈ r.notices moment schedule) :
    moment ≤ n.delay := by
  induction schedule generalizing r moment with
  | nil => cases h
  | cons t schedule ih =>
    rcases List.mem_append.mp h with hfirst | hrest
    · rw [delay_of_mem_noticesOf hfirst]
      exact Nat.le_max_left moment t.delay
    · exact Nat.le_trans (Nat.le_max_left moment t.delay) (ih hrest)

/-- Notices are sent in order of time. -/
theorem pairwise_notices (r : Reply) (moment : Nat) (schedule : List TimedAction) :
    (r.notices moment schedule).Pairwise fun n n' => n.delay ≤ n'.delay := by
  induction schedule generalizing r moment with
  | nil => exact .nil
  | cons t schedule ih =>
    refine List.pairwise_append.mpr ⟨?_, ih _ _, fun n hn n' hn' => ?_⟩
    · unfold noticesOf
      simp only
      split
      · exact List.pairwise_singleton _ _
      · exact .nil
    · rw [delay_of_mem_noticesOf hn]
      exact le_delay_of_mem_notices hn'

/-- No notice of a reply that stays pending is that of a complete one. -/
theorem pending_of_mem_notices
    (hpending : ¬ (r.applyAll (schedule.map TimedAction.action)).value.IsComplete) (moment : Nat) :
    ∀ n ∈ r.notices moment schedule, n.outcome.isComplete = false := by
  induction schedule generalizing r moment with
  | nil => exact fun n hn => absurd hn List.not_mem_nil
  | cons t schedule ih =>
    have hnext : ¬ (r.apply t.action).value.IsComplete := by
      intro h
      rw [List.map_cons, applyAll_cons, Logged.value_bind, applyAll_of_isComplete h] at hpending
      exact hpending h
    intro n hn
    rcases List.mem_append.mp hn with hfirst | hrest
    · exact pending_of_mem_noticesOf hnext hfirst
    · exact ih hpending _ n hrest

/-- The notice that ends a wait for a pending reply which a schedule completes. -/
structure IsEnd (r : Reply) (moment : Nat) (schedule : List TimedAction) (last : Notice) :
    Prop where
  /-- It is the last that is sent, and the first of a complete reply. -/
  notices_eq : ∃ earlier, r.notices moment schedule = earlier ++ [last] ∧
    ∀ n ∈ earlier, n.outcome.isComplete = false
  outcome_eq : last.outcome = (r.applyAll (schedule.map TimedAction.action)).value.outcome
  delay_eq : ∃ t ∈ schedule, last.delay = max moment t.delay
  delay_lt_iff : ∀ ms, last.delay < ms ↔
    moment < ms ∧ (r.applyAll (TimedAction.within (some ms) schedule)).value.IsComplete

/-- To be complete within a limit, a pending reply needs the first action to be within it. -/
theorem isComplete_within_cons (hpending : ¬ r.IsComplete) {ms : Nat} {t : TimedAction} :
    (r.applyAll (TimedAction.within (some ms) (t :: schedule))).value.IsComplete ↔
      t.delay < ms ∧
        ((r.apply t.action).value.applyAll
          (TimedAction.within (some ms) schedule)).value.IsComplete := by
  have hiff : t.IsWithin (some ms) ↔ t.delay < ms := by simp [TimedAction.IsWithin]
  by_cases hwithin : t.IsWithin (some ms)
  · rw [TimedAction.within_cons_of_isWithin hwithin, applyAll_cons, Logged.value_bind,
      and_iff_right (hiff.mp hwithin)]
  · rw [TimedAction.within_cons_of_not_isWithin hwithin]
    exact iff_of_false hpending fun h => hwithin (hiff.mpr h.1)

theorem exists_isEnd (hpending : ¬ r.IsComplete)
    (hends : (r.applyAll (schedule.map TimedAction.action)).value.IsComplete) (moment : Nat) :
    ∃ last, r.IsEnd moment schedule last := by
  induction schedule generalizing r moment with
  | nil => exact absurd hends hpending
  | cons t schedule ih =>
    by_cases hnow : (r.apply t.action).value.IsComplete
    · -- This action completes the reply, and no other is noticed after it.
      refine ⟨⟨max moment t.delay, (r.apply t.action).value.outcome⟩, ⟨[], ?_, nofun⟩, ?_,
        ⟨t, List.mem_cons_self, rfl⟩, fun ms => ?_⟩
      · rw [notices, noticesOf_of_completes hpending hnow, notices_of_isComplete hnow]
        rfl
      · rw [List.map_cons, applyAll_cons, Logged.value_bind, applyAll_of_isComplete hnow]
      · rw [isComplete_within_cons hpending, applyAll_of_isComplete hnow, and_iff_left hnow]
        exact Nat.max_lt
    · obtain ⟨last, ⟨earlier, hnotices, hearlier⟩, houtcome, ⟨t', ht', hdelay⟩, hlt⟩ :=
        ih hnow hends (max moment t.delay)
      refine ⟨last, ⟨r.noticesOf (max moment t.delay) t.action ++ earlier, ?_, ?_⟩, houtcome, ?_,
        fun ms => ?_⟩
      · rw [notices, hnotices, List.append_assoc]
      · intro n hn
        rcases List.mem_append.mp hn with hfirst | hrest
        · exact pending_of_mem_noticesOf hnow hfirst
        · exact hearlier n hrest
      · rcases Nat.le_total t.delay t'.delay with hle | hle
        · exact ⟨t', List.mem_cons_of_mem t ht', by omega⟩
        · exact ⟨t, List.mem_cons_self, by omega⟩
      · rw [hlt, isComplete_within_cons hpending, Nat.max_lt, and_assoc]

/-! ## Waiting until the reply is complete -/

/-- What comes of waiting until a reply is complete. -/
inductive Finishes (r : Reply) (schedule : List TimedAction) : Future Status → Prop
  /-- The reply is complete from the beginning. -/
  | atOnce (hcomplete : r.IsComplete) : Finishes r schedule (.ready r.outcome.status)
  /-- The schedule completes the reply. -/
  | onNotice {last : Notice} (hpending : ¬ r.IsComplete)
    (hends : (r.applyAll (schedule.map TimedAction.action)).value.IsComplete)
    (hend : r.IsEnd 0 schedule last) :
    Finishes r schedule
      (.later last.delay (r.applyAll (schedule.map TimedAction.action)).value.outcome.status)
  /-- The reply is waited for in vain. -/
  | never (hpending : ¬ (r.applyAll (schedule.map TimedAction.action)).value.IsComplete) :
    Finishes r schedule .never

/-- Attentive executors agree on when a reply is complete. -/
theorem exists_finishes (r : Reply) (schedule : List TimedAction) :
    ∃ future, r.Finishes schedule future ∧
      ∀ ex : Executor, ex.IsAttentive → r.finished ex schedule = future := by
  by_cases hcomplete : r.IsComplete
  · refine ⟨_, .atOnce hcomplete, fun ex hattentive => ?_⟩
    rw [finished, hattentive.waitFor_current _ (isComplete_iff.mp hcomplete)]
    rfl
  have hcurrent := not_isComplete_iff.mp hcomplete
  by_cases hends : (r.applyAll (schedule.map TimedAction.action)).value.IsComplete
  · obtain ⟨last, hend⟩ := exists_isEnd hcomplete hends 0
    obtain ⟨earlier, hnotices, hearlier⟩ := hend.notices_eq
    have hlast : last.outcome.isComplete = true := by
      rw [hend.outcome_eq]
      exact isComplete_iff.mp hends
    have hordered := r.pairwise_notices 0 schedule
    rw [hnotices] at hordered
    refine ⟨_, .onNotice hcomplete hends hend, fun ex hattentive => ?_⟩
    rw [finished, hnotices, hattentive.waitFor_last hordered hcurrent hearlier hlast,
      ← hend.outcome_eq]
    rfl
  · refine ⟨_, .never hends, fun ex hattentive => ?_⟩
    rw [finished, hattentive.waitFor_none hcurrent (pending_of_mem_notices hends 0)]
    rfl

theorem finishes_virtual (r : Reply) (schedule : List TimedAction) :
    r.Finishes schedule (r.finished .virtual schedule) := by
  obtain ⟨future, hfuture, heq⟩ := exists_finishes r schedule
  rw [heq _ Executor.virtual_isAttentive]
  exact hfuture

theorem finished_eq_virtual (hattentive : ex.IsAttentive) (r : Reply)
    (schedule : List TimedAction) :
    r.finished ex schedule = r.finished .virtual schedule := by
  obtain ⟨future, -, heq⟩ := exists_finishes r schedule
  rw [heq ex hattentive, heq _ Executor.virtual_isAttentive]

variable {future : Future Status}

/-- A reply is never completed at a moment at which nothing happens. -/
theorem Finishes.ne_later (h : r.Finishes schedule future) {ms : Nat}
    (hoff : ∀ t ∈ schedule, t.delay ≠ ms) (status : Status) : future ≠ .later ms status := by
  cases h with
  | atOnce => exact nofun
  | @onNotice last _ _ hend =>
    obtain ⟨t, ht, hdelay⟩ := hend.delay_eq
    intro heq
    have hlast : last.delay = ms := (Future.later.inj heq).1
    exact hoff t ht (by omega)
  | never => exact nofun

theorem Finishes.value?_eq (h : r.Finishes schedule future) :
    future.value? =
      if (r.applyAll (schedule.map TimedAction.action)).value.IsComplete then
        some (r.applyAll (schedule.map TimedAction.action)).value.outcome.status
      else none := by
  cases h with
  | atOnce hcomplete =>
    rw [applyAll_of_isComplete hcomplete, if_pos hcomplete]
    rfl
  | onNotice _ hends =>
    rw [if_pos hends]
    rfl
  | never hpending =>
    rw [if_neg hpending]
    rfl

/-- On the virtual clock the reply comes first exactly if the actions within the limit complete
it. -/
theorem Finishes.timeout_eq (h : r.Finishes schedule future) (ms : Nat) :
    let reached := (r.applyAll (TimedAction.within (some ms) schedule)).value
    Executor.virtual.timeout ms future =
      if reached.IsComplete then .completed reached.outcome.status else .elapsed ms := by
  intro reached
  cases h with
  | atOnce hcomplete =>
    have hreached : reached = r := applyAll_of_isComplete hcomplete _
    rw [hreached, if_pos hcomplete]
    rfl
  | @onNotice last hpending _ hend =>
    have hpos : reached.IsComplete → 0 < ms := by
      intro hin
      refine Nat.pos_of_ne_zero ?_
      rintro rfl
      have hreached : reached = r := by simp [reached, TimedAction.within_zero]
      exact hpending (hreached ▸ hin)
    have hlt : last.delay < ms ↔ reached.IsComplete :=
      (hend.delay_lt_iff ms).trans (and_iff_right_of_imp hpos)
    by_cases hin : reached.IsComplete
    · rw [if_pos hin, value_applyAll_of_within hin]
      exact if_pos (hlt.mpr hin)
    · rw [if_neg hin]
      exact if_neg (mt hlt.mp hin)
  | never hpending =>
    have hin : ¬ reached.IsComplete := by
      intro h
      rw [value_applyAll_of_within h] at hpending
      exact hpending h
    rw [if_neg hin]
    rfl

/-! ## The limit -/

/-- A reply at the limit: it fails if it is still pending. -/
def atLimit (r : Reply) : Reply :=
  if r.outcome.status = .pending then
    { r with outcome := { r.outcome with status := .failed ⟨.timeout, "Request timeout."⟩ } }
  else r

theorem atLimit_of_isComplete (h : r.IsComplete) : r.atLimit = r := if_neg h

theorem isComplete_atLimit (r : Reply) : r.atLimit.IsComplete := by
  by_cases h : r.IsComplete
  · rw [atLimit_of_isComplete h]
    exact h
  · rw [atLimit, if_pos (Decidable.not_not.mp h)]
    exact nofun

theorem atLimit_ne_iff : r.atLimit ≠ r ↔ r.outcome.status = .pending := by
  constructor
  · intro hne
    by_cases h : r.IsComplete
    · exact absurd (atLimit_of_isComplete h) hne
    · exact Decidable.not_not.mp h
  · intro hpending heq
    have hcomplete := r.isComplete_atLimit
    rw [heq] at hcomplete
    exact hcomplete hpending

/-- When the limit passes a reply that is still pending, the reply fails and this is logged. -/
theorem expire_of_not_isComplete (h : ¬ r.IsComplete) (ms : Nat) :
    r.expire ms = ⟨r.atLimit, [.timedOut r.slave ms]⟩ := by
  rw [expire, apply_of_not_isComplete h, atLimit, if_pos (Decidable.not_not.mp h)]
  rfl

/-- The log of a wait whose limit passes a reply; without a limit there is none. -/
def limitLog (r : Reply) (limit : Option Nat) : List Event :=
  if r.outcome.status = .pending then limit.toList.map (.timedOut r.slave) else []

/-! ## Waiting on the virtual clock -/

/-- If the actions within the limit complete the reply, the waiting caller is told so, and the
schedule goes on as if nobody had waited. -/
theorem wait_of_isComplete
    (h : (r.applyAll (TimedAction.within limit schedule)).value.IsComplete) :
    r.wait limit schedule =
      some (r.applyAll (schedule.map TimedAction.action) >>= fun last =>
        pure ((r.applyAll (TimedAction.within limit schedule)).value.outcome.status, last)) := by
  have hfinishes := finishes_virtual r schedule
  cases limit with
  | none =>
    rw [TimedAction.within_none] at h
    rw [wait, waitOn, hfinishes.value?_eq, if_pos h, TimedAction.within_none]
    rfl
  | some ms =>
    rw [wait, waitOn]
    simp only [hfinishes.timeout_eq]
    rw [if_pos h]

/-- Otherwise the limit passes between two actions. -/
theorem wait_of_not_isComplete {ms : Nat}
    (h : ¬ (r.applyAll (TimedAction.within (some ms) schedule)).value.IsComplete) :
    r.wait (some ms) schedule =
      some (r.applyAll (TimedAction.within (some ms) schedule) >>= fun r =>
        r.expire ms >>= fun r =>
          r.applyAll (TimedAction.beyond (some ms) schedule) >>= fun last =>
            pure (r.outcome.status, last)) := by
  rw [wait, waitOn]
  simp only [(finishes_virtual r schedule).timeout_eq]
  rw [if_neg h]

/-- A wait on the virtual clock is what happens within the limit, then the limit, then the rest. It
ends if it has a limit or something ends the reply. -/
theorem wait_eq_some
    (hends : limit = none →
      (r.applyAll (TimedAction.within limit schedule)).value.IsComplete) :
    let reached := (r.applyAll (TimedAction.within limit schedule)).value
    r.wait limit schedule =
      some ⟨(reached.atLimit.outcome.status, reached.atLimit),
        (r.applyAll (TimedAction.within limit schedule)).log ++ reached.limitLog limit ++
          (reached.atLimit.applyAll (TimedAction.beyond limit schedule)).log⟩ := by
  intro reached
  by_cases hcomplete : reached.IsComplete
  · have hall : r.applyAll (schedule.map TimedAction.action) = _ :=
      TimedAction.within_append_beyond limit schedule ▸ applyAll_append r _ _
    rw [wait_of_isComplete hcomplete, atLimit_of_isComplete hcomplete, limitLog, if_neg hcomplete,
      hall]
    refine congrArg some (Logged.ext ?_ ?_)
    · simp only [Logged.value_bind, Logged.value_pure]
      rw [applyAll_of_isComplete hcomplete]
    · simp only [Logged.log_bind, Logged.log_pure, List.append_nil]
      rfl
  · cases limit with
    | none => exact absurd (hends rfl) hcomplete
    | some ms =>
      have hexpire := expire_of_not_isComplete hcomplete ms
      rw [wait_of_not_isComplete hcomplete, limitLog, if_pos (Decidable.not_not.mp hcomplete)]
      refine congrArg some (Logged.ext ?_ ?_)
      · simp only [Logged.value_bind, Logged.value_pure]
        rw [hexpire, applyAll_of_isComplete reached.isComplete_atLimit]
      · simp only [Logged.log_bind, Logged.log_pure, List.append_nil]
        rw [hexpire, List.append_assoc]
        rfl

theorem isComplete_of_wait {ended : Logged (Status × Reply)}
    (h : r.wait limit schedule = some ended) :
    limit = none → (r.applyAll (TimedAction.within limit schedule)).value.IsComplete := by
  rintro rfl
  refine Decidable.byContradiction fun hpending => ?_
  rw [TimedAction.within_none] at hpending
  rw [wait, waitOn, (finishes_virtual r schedule).value?_eq, if_neg hpending] at h
  cases h

/-- The status that a wait tells, and the reply that comes out of it. -/
theorem value_wait {ended : Logged (Status × Reply)} (h : r.wait limit schedule = some ended) :
    let reached := (r.applyAll (TimedAction.within limit schedule)).value
    ended.value = (reached.atLimit.outcome.status, reached.atLimit) := by
  rw [wait_eq_some (isComplete_of_wait h)] at h
  exact (congrArg Logged.value (Option.some.inj h)).symm

/-- The log of a wait: what is logged before the limit, at the limit and after it. -/
theorem log_wait {ended : Logged (Status × Reply)} (h : r.wait limit schedule = some ended) :
    let reached := (r.applyAll (TimedAction.within limit schedule)).value
    ended.log = (r.applyAll (TimedAction.within limit schedule)).log ++ reached.limitLog limit ++
      (reached.atLimit.applyAll (TimedAction.beyond limit schedule)).log := by
  rw [wait_eq_some (isComplete_of_wait h)] at h
  exact (congrArg Logged.log (Option.some.inj h)).symm

/-! ## Waiting on any executor -/

/-- On every executor that keeps its promises a wait is as on the virtual clock, if nothing happens
at the very limit. -/
theorem waitOn_eq_wait {longest : Nat} (hattentive : ex.IsAttentive)
    (hpunctual : ex.IsPunctual longest) (hlimit : ∀ ms ∈ limit, ms ≤ longest)
    (hoff : ∀ t ∈ schedule, limit ≠ some t.delay) :
    r.waitOn ex limit schedule = r.wait limit schedule := by
  cases limit with
  | none => rw [wait, waitOn, waitOn, finished_eq_virtual hattentive]
  | some ms =>
    have hne := (finishes_virtual r schedule).ne_later fun t ht heq =>
      hoff t ht (congrArg some heq.symm)
    rw [wait, waitOn, waitOn, finished_eq_virtual hattentive,
      hpunctual.timeout_eq_virtual (hlimit ms rfl) hne]

end Reply

end Modbus
