import Modbus.Proofs.Actions
import Modbus.Reply.Shared

/-!
# One reply behind all handles

Handles are made from handles, each with its own copy of what a handle knows, and any of them may be
used to tell the reply something. `SharedReply.IsOne` is what keeps them together: every handle
stands for the reply that the first one shows. A use of the reply through whichever handle then does
to it what the actions in it do, in order (`SharedReply.IsOne.run`), so that
`SharedReply.first_ending_action_wins` can say from the actions alone what every handle shows after
every step.
-/

namespace Modbus

namespace SharedReply

/-! ## Uses of a reply -/

namespace Step

/-- What a step tells the reply. -/
def told : Step → List Action
  | act a => [a]
  | share | poll | wait _ _ => []

/-- How many handles a step makes. -/
def made : Step → Nat
  | share => 1
  | act _ | poll | wait _ _ => 0

end Step

/-- What a list of steps tells the reply, through whichever handles. -/
def told (steps : List (Nat × Step)) : List Action :=
  steps.flatMap fun st => st.2.told

/-- How many handles a list of steps makes. -/
def made : List (Nat × Step) → Nat
  | [] => 0
  | (_, st) :: steps => st.made + made steps

/-- The steps use a reply that has so many handles: each goes through a handle that has been made by
then, and nobody waits. -/
def IsUse : (handles : Nat) → List (Nat × Step) → Prop
  | _, [] => True
  | _, (_, .wait _ _) :: _ => False
  | handles, (i, st) :: steps => i < handles ∧ IsUse (handles + st.made) steps

theorem isUse_cons {handles i : Nat} {st : Step} {steps : List (Nat × Step)}
    (h : IsUse handles ((i, st) :: steps)) :
    i < handles ∧ (∀ limit schedule, st ≠ .wait limit schedule) ∧
      IsUse (handles + st.made) steps := by
  cases st with
  | share | act a | poll => exact ⟨h.1, fun _ _ => nofun, h.2⟩
  | wait limit schedule => exact absurd h id

theorem isUse_of_append {handles : Nat} {first second : List (Nat × Step)}
    (h : IsUse handles (first ++ second)) :
    IsUse handles first ∧ IsUse (handles + made first) second := by
  induction first generalizing handles with
  | nil => exact ⟨trivial, h⟩
  | cons st first ih =>
    obtain ⟨i, st⟩ := st
    obtain ⟨hi, hwait, hrest⟩ := isUse_cons h
    obtain ⟨hfirst, hsecond⟩ := ih hrest
    have hmade : made ((i, st) :: first) = st.made + made first := rfl
    rw [hmade, ← Nat.add_assoc]
    cases st with
    | share | act a | poll => exact ⟨⟨hi, hfirst⟩, hsecond⟩
    | wait limit schedule => exact absurd rfl (hwait limit schedule)

/-! ## What the handles have in common -/

/-- Every handle stands for the reply that the first one shows. -/
def IsOne (s : SharedReply) : Prop :=
  ∀ h ∈ s.copies, h = s.reply.handle

variable {s : SharedReply}

theorem IsOne.view_eq (h : s.IsOne) : ∀ view ∈ s.views, view = s.reply := by
  intro view hview
  rcases List.mem_cons.mp hview with rfl | hcopy
  · rfl
  · obtain ⟨handle, hhandle, rfl⟩ := List.mem_map.mp hcopy
    rw [h handle hhandle]
    rfl

theorem IsOne.stepAt_eq (h : s.IsOne) {i : Nat} (hi : i < s.views.length) (st : Step) :
    s.stepAt i st = s.step s.reply st := by
  have hview : s.views[i]? = some s.views[i] := List.getElem?_eq_getElem hi
  have hsame : s.views[i] = s.reply := h.view_eq _ (List.getElem_mem hi)
  rw [stepAt, hview, hsame]

/-- What a step through any handle does: the reply is told what the step tells, the handles it makes
are handles of the same reply, and all else stays. -/
theorem IsOne.step (h : s.IsOne) {i : Nat} (hi : i < s.views.length) {st : Step}
    (hst : ∀ limit schedule, st ≠ .wait limit schedule) :
    (s.stepAt i st).value.2.IsOne ∧
      (s.stepAt i st).value.2.reply = (s.reply.applyAll st.told).value ∧
      (s.stepAt i st).value.2.views.length = s.views.length + st.made := by
  rw [h.stepAt_eq hi]
  cases st with
  | share =>
    refine ⟨fun handle hhandle => ?_, rfl, ?_⟩
    · rcases List.mem_append.mp hhandle with hold | hnew
      · exact h handle hold
      · exact List.mem_singleton.mp hnew
    · have hcopies : (s.copies ++ [s.reply.handle]).length = s.copies.length + 1 :=
        List.length_append
      rw [length_views, length_views, Step.made, ← hcopies]
      rfl
  | act a =>
    refine ⟨h, ?_, ?_⟩
    · have htold : (s.reply.applyAll (Step.act a).told).value = (s.reply.apply a).value := rfl
      rw [htold, Reply.value_apply_eq]
      rfl
    · rw [length_views, length_views]
      rfl
  | poll => exact ⟨h, rfl, rfl⟩
  | wait limit schedule => exact absurd rfl (hst limit schedule)

/-- A use of a reply does to it what the actions in it do. -/
theorem IsOne.run (h : s.IsOne) {steps : List (Nat × Step)}
    (hsteps : IsUse s.views.length steps) :
    (s.run steps).value.2.IsOne ∧
      (s.run steps).value.2.reply = (s.reply.applyAll (told steps)).value ∧
      (s.run steps).value.2.views.length = s.views.length + made steps := by
  induction steps generalizing s with
  | nil => exact ⟨h, rfl, rfl⟩
  | cons st steps ih =>
    obtain ⟨i, st⟩ := st
    obtain ⟨hi, hst, hrest⟩ := isUse_cons hsteps
    obtain ⟨hone, hreply, hlength⟩ := h.step hi hst
    obtain ⟨hone', hreply', hlength'⟩ := ih hone (by rw [hlength]; exact hrest)
    have htold : told ((i, st) :: steps) = st.told ++ told steps := rfl
    have hmade : made ((i, st) :: steps) = st.made + made steps := rfl
    refine ⟨hone', ?_, ?_⟩
    · rw [htold, Reply.value_applyAll_append, ← hreply]
      exact hreply'
    · rw [hmade, ← Nat.add_assoc, ← hlength]
      exact hlength'

/-! ## Runs in two parts -/

theorem length_answers (s : SharedReply) (steps : List (Nat × Step)) :
    (s.run steps).value.1.length = steps.length := by
  induction steps generalizing s with
  | nil => rfl
  | cons st steps ih => exact congrArg (· + 1) (ih _)

theorem value_run_append (s : SharedReply) (first second : List (Nat × Step)) :
    (s.run (first ++ second)).value =
      ((s.run first).value.1 ++ ((s.run first).value.2.run second).value.1,
        ((s.run first).value.2.run second).value.2) := by
  induction first generalizing s with
  | nil => rfl
  | cons st first ih =>
    have hrest := ih (s.stepAt st.1 st.2).value.2
    simp only [List.cons_append, SharedReply.run, Logged.value_bind, Logged.value_pure, hrest]

/-- The answer to a step in the middle of a run is the one that the step gets from the reply as the
steps before have left it. -/
theorem getElem?_answers (s : SharedReply) (first second : List (Nat × Step)) (i : Nat)
    (st : Step) :
    (s.run (first ++ (i, st) :: second)).value.1[first.length]? =
      some ((s.run first).value.2.stepAt i st).value.1 := by
  rw [value_run_append, ← length_answers s first, List.getElem?_append_right (Nat.le_refl _),
    Nat.sub_self]
  rfl

/-! ## The first action that ends the reply -/

/-- A new reply, with one handle. -/
def new (kind : ReplyKind) (slave : UInt8) : SharedReply :=
  { reply := { kind, slave } }

/-- However a new reply is used, and through whichever of its handles, after every step all handles
show the same: a pending reply as long as nothing has ended it, and from then on the outcome that
the first action to end it has left, with the response and the result that were told last before.
To say that the reply is not finished changes nothing, and asking whether it is complete tells how
it was ended once it was. -/
theorem first_ending_action_wins {kind : ReplyKind} {slave : UInt8} {steps : List (Nat × Step)}
    (hsteps : IsUse 1 steps) (done rest : List (Nat × Step)) (hsplit : steps = done ++ rest) :
    let s := ((new kind slave).run done).value.2
    let ending := (told done).findSome? Action.ending?
    s.views.length = 1 + made done ∧
    (∀ view ∈ s.views, view = { kind, slave, outcome := s.reply.outcome } ∧
      (∀ f, ending = some (.failed f) → view.failure = f) ∧
      ((∀ f, ending ≠ some (.failed f)) → view.failure = ⟨.noError, ""⟩)) ∧
    ((∀ a ∈ told done, a.ending? = none) →
      s.reply.outcome =
        { status := .pending
          response := Action.lastResponse? (told done)
          result := Action.lastResult? (told done) }) ∧
    (∀ before a after status, told done = before ++ a :: after →
      (∀ b ∈ before, b.ending? = none) → a.ending? = some status →
      s.reply.outcome =
        { status
          response := Action.lastResponse? before
          result := Action.lastResult? before }) ∧
    (∀ i later, rest = (i, .act (.setFinished false)) :: later →
      s.stepAt i (.act (.setFinished false)) = pure (some .done, s)) ∧
    (∀ i later, rest = (i, .poll) :: later →
      ((new kind slave).run steps).value.1[done.length]? = some (some (.polled ending)) ∧
        (s.stepAt i .poll).value.2 = s) := by
  intro s ending
  subst hsplit
  obtain ⟨hdone, hrest⟩ := isUse_of_append hsteps
  have hnew : (new kind slave).IsOne := fun h hh => absurd hh (List.not_mem_nil)
  obtain ⟨hone, hreply, hlength⟩ := hnew.run hdone
  have hempty : (new kind slave).reply.outcome = {} := rfl
  have hpoll : s.reply.poll = ending := by
    rw [hreply]
    exact Reply.poll_applyAll hempty
  have hsame : s.reply = { kind, slave, outcome := s.reply.outcome } := by
    rw [hreply]
    exact Reply.value_applyAll_eq _ _
  have hlength' : s.views.length = 1 + made done := hlength
  refine ⟨hlength', fun view hview => ?_, fun hnone => ?_, ?_, ?_, ?_⟩
  · rw [hone.view_eq view hview]
    have hstatus : s.reply.outcome.status = ending.getD .pending := by
      rw [Reply.status_eq_poll, hpoll]
    refine ⟨hsame, fun f hf => ?_, fun hnone => ?_⟩
    · rw [Reply.failure, hstatus, hf]
      rfl
    · rw [Reply.failure, hstatus]
      match ending, hnone with
      | some (.failed f), hnone => exact absurd rfl (hnone f)
      | some .finished, _ | some .pending, _ | none, _ => rfl
  · rw [hreply]
    exact Reply.outcome_applyAll_of_no_ending hempty hnone
  · intro before a after status htold hbefore ha
    rw [hreply, htold]
    exact Reply.outcome_applyAll_of_ending hempty hbefore ha
  · intro i later hlater
    rw [hlater] at hrest
    have hi : i < s.views.length := hlength' ▸ (isUse_cons hrest).1
    rw [hone.stepAt_eq hi]
    rfl
  · intro i later hlater
    rw [hlater] at hrest
    have hi : i < s.views.length := hlength' ▸ (isUse_cons hrest).1
    rw [hlater, getElem?_answers, hone.stepAt_eq hi]
    refine ⟨?_, rfl⟩
    rw [← hpoll]
    rfl

/-- A failure is told through the first handle, and success then through the second. -/
theorem success_through_another_handle_comes_too_late :
    let steps : List (Nat × Step) :=
      [(0, .share), (1, .act (.setResponse ⟨1, [1, 1]⟩)), (0, .act (.setFailure .timeout)),
        (1, .act (.setFinished true)), (1, .poll)]
    let done := steps.take 4
    let s := ((new .common 7).run done).value.2
    IsUse 1 steps ∧ steps = done ++ [(1, .poll)] ∧
      s.views.length = 2 ∧
      (∀ view ∈ s.views, view = { kind := .common, slave := 7, outcome := s.reply.outcome }) ∧
      s.reply.outcome =
        { status := .failed .timeout, response := some ⟨1, [1, 1]⟩, result := none } ∧
      ((new .common 7).run steps).value.1[4]? =
        some (some (.polled (some (.failed .timeout)))) := by
  intro steps done s
  have hsteps : IsUse 1 steps := by
    refine ⟨?_, ?_, ?_, ?_, ?_, trivial⟩ <;> decide
  obtain ⟨hlength, hviews, -, hended, -, hpoll⟩ :=
    @first_ending_action_wins .common 7 steps hsteps done [(1, .poll)] rfl
  refine ⟨hsteps, rfl, hlength, fun view hview => (hviews view hview).1, ?_, ?_⟩
  · exact hended [.setResponse ⟨1, [1, 1]⟩] (.setFailure .timeout) [.setFinished true] _ rfl
      (fun b hb => by rw [List.mem_singleton.mp hb]; rfl) rfl
  · exact (hpoll 1 [] rfl).1

end SharedReply

end Modbus
