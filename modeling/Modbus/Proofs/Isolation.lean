import Modbus.Proofs.Elements

/-!
# Requests do not interfere

Requests share a session: its queue, its extension, its last failure. What becomes of one of them
does not depend on the others all the same. `Session.requests_do_not_interfere` compares two runs,
one of them with all steps about other elements left out, and finds the same element, the same
number of elements, the same failure and the same timeout at the end of both.

`Session.AgreesAt` is what the two runs keep: their sessions differ at most in the other elements
and in how often the extension has been called. A step about another element keeps it because it
changes nothing else (`Session.agreesAt_next`), and any step taken in both sessions keeps it because
it reads nothing else (`Session.AgreesAt.next`). From the same two facts it follows that steps about
different elements can change places.
-/

namespace Modbus.Session

/-! ## Steps about elements -/

namespace Step

/-- The element that a step is about. A step that only looks at an element is about none. -/
def target? : Step → Option Nat
  | complete index _ | wait index _ _ | act index _ => some index
  | send _ _ | enqueue _ _ _ _ | process _ _ | inspect _ | setTimeout _ | changeTransport _ => none

/-- The step is not about another element than the one at `k`. -/
def SparesAllBut (k : Nat) (st : Step) : Prop :=
  ∀ i ∈ st.target?, i = k

instance (k : Nat) (st : Step) : Decidable (st.SparesAllBut k) :=
  inferInstanceAs (Decidable (∀ i ∈ st.target?, i = k))

/-- The steps of a run that are about the element at `k`. -/
def about (k : Nat) (steps : List Step) : List Step :=
  steps.filter fun st => st.target? = some k

variable {st : Step} {i k : Nat}

theorem about_cons_of_eq (h : st.target? = some k) (steps : List Step) :
    about k (st :: steps) = st :: about k steps :=
  List.filter_cons_of_pos (by simpa using h)

theorem about_cons_of_ne (h : st.target? = some i) (hik : i ≠ k) (steps : List Step) :
    about k (st :: steps) = about k steps :=
  List.filter_cons_of_neg (by simpa [h] using hik)

theorem about_append (k : Nat) (first second : List Step) :
    about k (first ++ second) = about k first ++ about k second :=
  List.filter_append ..

end Step

/-- The reply that a step puts in the place of the one of the element it is about. -/
def replyAfter (s : Session) : Step → Element → Reply
  | .complete _ r, e => (e.complete s.extension r).value.1
  | .wait _ patience schedule, e => e.reply.waited (s.limit? patience) schedule
  | .act _ a, e => (e.reply.apply a).value
  | .send _ _, e | .enqueue _ _ _ _, e | .process _ _, e | .inspect _, e | .setTimeout _, e
  | .changeTransport _, e => e.reply

/-- The same session with its requests at another stage: another queue, and another number of calls
to the extension. -/
def withProgress (s : Session) (queue : List Element) (calls : Nat) : Session :=
  { s with transport.queue := queue, extensionCalls := calls }

variable {s t : Session} {st a b : Step} {i j k : Nat}

/-- A step about an element replaces its reply and may call the extension. It does nothing else. -/
theorem next_of_target (h : st.target? = some i) :
    s.next st =
      s.withProgress (s.withReply i (s.replyAfter st)) (s.extensionCalls + s.calls st) := by
  cases st with
  | complete index r | wait index patience schedule | act index a =>
    cases h
    rfl
  | send c slave | enqueue request slave unit kind | process r unit | inspect index
  | setTimeout ms | changeTransport change => cases h

/-- Steps about elements leave the last failure alone, however the requests end. -/
theorem failure_after_of_target {steps : List Step} (h : ∀ st ∈ steps, st.target? ≠ none) :
    (s.after steps).failure = s.failure := by
  induction steps generalizing s with
  | nil => rfl
  | cons st steps ih =>
    obtain ⟨i, hi⟩ := Option.ne_none_iff_exists'.mp (h st List.mem_cons_self)
    rw [after_cons_next, ih fun a ha => h a (List.mem_cons_of_mem _ ha), next_of_target hi]
    rfl

/-! ## Sessions that agree at an element -/

/-- The second session is the first one with its requests at another stage, except that it has the
same element at `k`, and as many elements. -/
def AgreesAt (s t : Session) (k : Nat) : Prop :=
  ∃ queue calls, t = s.withProgress queue calls ∧
    queue[k]? = s.queue[k]? ∧ queue.length = s.queue.length

theorem AgreesAt.refl (s : Session) (k : Nat) : s.AgreesAt s k :=
  ⟨s.queue, s.extensionCalls, rfl, rfl, rfl⟩

theorem AgreesAt.trans {u : Session} (hst : s.AgreesAt t k) (htu : t.AgreesAt u k) :
    s.AgreesAt u k := by
  obtain ⟨queue, calls, rfl, helement, hlength⟩ := hst
  obtain ⟨queue', calls', rfl, helement', hlength'⟩ := htu
  exact ⟨queue', calls', rfl, helement'.trans helement, hlength'.trans hlength⟩

theorem getElem?_withReply_of_ne (h : i ≠ k) (f : Element → Reply) :
    (s.withReply i f)[k]? = s.queue[k]? := by
  rw [withReply, List.getElem?_modify]
  simp [h]

/-- A step about another element is not noticed. -/
theorem agreesAt_next (h : st.target? = some i) (hik : i ≠ k) : s.AgreesAt (s.next st) k :=
  ⟨_, _, next_of_target h, getElem?_withReply_of_ne hik _, List.length_modify _ _ _⟩

theorem AgreesAt.queueAfter (h : s.AgreesAt t k) (st : Step) :
    (t.queueAfter st)[k]? = (s.queueAfter st)[k]? ∧
      (t.queueAfter st).length = (s.queueAfter st).length := by
  obtain ⟨queue, calls, rfl, helement, hlength⟩ := h
  have hadd (e : Element) : (queue ++ [e])[k]? = (s.queue ++ [e])[k]? ∧
      (queue ++ [e]).length = (s.queue ++ [e]).length := by
    rw [List.getElem?_append, List.getElem?_append, List.length_append, List.length_append,
      helement, hlength]
    exact ⟨rfl, rfl⟩
  have hreply (index : Nat) (f : Element → Reply) :
      ((s.withProgress queue calls).withReply index f)[k]? = (s.withReply index f)[k]? ∧
        ((s.withProgress queue calls).withReply index f).length =
          (s.withReply index f).length := by
    have hqueue : (s.withProgress queue calls).queue = queue := rfl
    rw [withReply, withReply, List.getElem?_modify, List.getElem?_modify, List.length_modify,
      List.length_modify, hqueue, helement, hlength]
    exact ⟨rfl, rfl⟩
  cases st with
  | send c slave =>
    rw [Session.queueAfter, Session.queueAfter]
    by_cases hsend : s.CanSend c.request
    · rw [if_pos hsend, if_pos (by exact hsend)]
      exact hadd _
    · rw [if_neg hsend, if_neg (by exact hsend)]
      exact ⟨helement, hlength⟩
  | enqueue request slave unit kind =>
    rw [Session.queueAfter, Session.queueAfter]
    by_cases hrefusing : s.transport.refusing = true
    · rw [if_pos hrefusing, if_pos (by exact hrefusing)]
      exact ⟨helement, hlength⟩
    · rw [if_neg hrefusing, if_neg (by exact hrefusing)]
      exact hadd _
  | complete index r => exact hreply index _
  | wait index patience schedule => exact hreply index _
  | act index a => exact hreply index _
  | process r unit | inspect index | setTimeout ms | changeTransport change =>
    exact ⟨helement, hlength⟩

/-- A step does the same in both sessions. -/
theorem AgreesAt.next (h : s.AgreesAt t k) (st : Step) : (s.next st).AgreesAt (t.next st) k := by
  have hqueue := h.queueAfter st
  obtain ⟨queue, calls, rfl, -⟩ := h
  refine ⟨_, ((s.withProgress queue calls).next st).extensionCalls, ?_, hqueue⟩
  cases st <;> rfl

/-- The steps about other elements can be left out of a run. -/
theorem AgreesAt.after_filter (h : s.AgreesAt t k) (steps : List Step) :
    (s.after (steps.filter fun st => st.SparesAllBut k)).AgreesAt (t.after steps) k := by
  induction steps generalizing s t with
  | nil => exact h
  | cons st steps ih =>
    by_cases hspares : st.SparesAllBut k
    · rw [List.filter_cons_of_pos (by simpa using hspares), after_cons_next, after_cons_next]
      exact ih (h.next st)
    · -- only the second session does the step, which it does not notice at `k`
      rw [List.filter_cons_of_neg (by simpa using hspares), after_cons_next]
      obtain ⟨i, hi, hik⟩ : ∃ i, st.target? = some i ∧ i ≠ k := by
        simpa [Step.SparesAllBut] using hspares
      exact ih (h.trans (agreesAt_next hi hik))

/-! ## Changing places -/

theorem AgreesAt.replyAfter (h : s.AgreesAt t k) (st : Step) :
    t.replyAfter st = s.replyAfter st := by
  obtain ⟨queue, calls, rfl, -⟩ := h
  cases st <;> rfl

theorem AgreesAt.calls (h : s.AgreesAt t k) (hst : st.target? = some k) :
    t.calls st = s.calls st := by
  obtain ⟨queue, calls, rfl, helement, -⟩ := h
  cases st with
  | complete index r =>
    cases hst
    exact congrArg (·.elim 0 fun e => (e.complete s.extension r).value.2) helement
  | wait index patience schedule | act index a => rfl
  | send c slave | enqueue request slave unit kind | process r unit | inspect index
  | setTimeout ms | changeTransport change => cases hst

/-- A step about an element is answered from that element. -/
theorem AgreesAt.answer (h : s.AgreesAt t k) (hst : st.target? = some k) :
    (t.step st).value.1 = (s.step st).value.1 := by
  obtain ⟨queue, calls, rfl, helement, -⟩ := h
  have hqueue : (s.withProgress queue calls).queue[k]? = s.queue[k]? := helement
  cases st with
  | complete index r | act index a =>
    cases hst
    rw [step, step, withElement, withElement, hqueue]
    cases s.queue[k]? <;> rfl
  | wait index patience schedule =>
    cases hst
    rw [step, step, withElement, withElement, hqueue]
    cases s.queue[k]? with
    | none => rfl
    | some e =>
      have hlimit : (s.withProgress queue calls).limit? patience = s.limit? patience := by
        cases patience <;> rfl
      simp only [hlimit]
      cases e.reply.wait (s.limit? patience) schedule <;> rfl
  | send c slave | enqueue request slave unit kind | process r unit | inspect index
  | setTimeout ms | changeTransport change => cases hst

theorem next_next (ha : a.target? = some i) (hb : b.target? = some j) (hij : i ≠ j) :
    (s.next a).next b =
      s.withProgress
        ((s.queue.modify i fun e => { e with reply := s.replyAfter a e }).modify j
          fun e => { e with reply := s.replyAfter b e })
        (s.extensionCalls + s.calls a + s.calls b) := by
  have hagrees : s.AgreesAt (s.next a) j := agreesAt_next ha hij
  rw [next_of_target hb, hagrees.replyAfter, hagrees.calls hb, next_of_target ha]
  rfl

/-- Steps about different elements can change places. -/
theorem next_comm (ha : a.target? = some i) (hb : b.target? = some j) (hij : i ≠ j) :
    (s.next a).next b = (s.next b).next a := by
  rw [next_next ha hb hij, next_next hb ha (Ne.symm hij), List.modify_modify_ne _ _ _ hij,
    Nat.add_right_comm]

/-- Neither step notices that the other one has changed places with it. -/
theorem run_comm (ha : a.target? = some i) (hb : b.target? = some j) (hij : i ≠ j) :
    ∃ x y u, (s.run [a, b]).value = ([x, y], u) ∧ (s.run [b, a]).value = ([y, x], u) := by
  have hfirst : s.AgreesAt (s.next a) j := agreesAt_next ha hij
  have hsecond : s.AgreesAt (s.next b) i := agreesAt_next hb (Ne.symm hij)
  have hrun (a b : Step) : (s.run [a, b]).value =
      ([(s.step a).value.1, ((s.next a).step b).value.1], (s.next a).next b) := by
    rw [← value_step_snd, ← value_step_snd]
    rfl
  refine ⟨(s.step a).value.1, (s.step b).value.1, (s.next a).next b, ?_, ?_⟩
  · rw [hrun, hfirst.answer hb]
  · rw [hrun, hsecond.answer ha, next_comm ha hb hij]

theorem after_move_front (hst : st.target? = some i) {front : List Step}
    (hfront : ∀ a ∈ front, ∃ j, a.target? = some j ∧ j ≠ i) (rest : List Step) :
    s.after (front ++ st :: rest) = s.after (st :: (front ++ rest)) := by
  induction front generalizing s with
  | nil => rfl
  | cons a front ih =>
    obtain ⟨j, ha, hji⟩ := hfront a List.mem_cons_self
    have hrest := fun a ha => hfront a (List.mem_cons_of_mem _ ha)
    rw [List.cons_append, after_cons_next, ih hrest, List.cons_append, after_cons_next,
      after_cons_next, after_cons_next, next_comm ha hst hji]

/-- Only the order of the steps about one and the same element counts. -/
theorem after_eq_of_about_eq {first second : List Step}
    (htarget : ∀ st ∈ first ++ second, st.target? ≠ none)
    (h : ∀ k, Step.about k first = Step.about k second) :
    s.after first = s.after second := by
  induction first generalizing s second with
  | nil =>
    cases second with
    | nil => rfl
    | cons st second =>
      obtain ⟨i, hi⟩ := Option.ne_none_iff_exists'.mp (htarget st List.mem_cons_self)
      have hfirst := h i
      rw [Step.about_cons_of_eq hi] at hfirst
      cases hfirst
  | cons st first ih =>
    obtain ⟨i, hi⟩ := Option.ne_none_iff_exists'.mp (htarget st List.mem_cons_self)
    -- the second run does this step too, after steps about other elements only
    have hfirst := h i
    rw [Step.about_cons_of_eq hi] at hfirst
    obtain ⟨front, back, rfl, hfront, -, hback⟩ := List.filter_eq_cons_iff.mp hfirst.symm
    have hothers : ∀ a ∈ front, ∃ j, a.target? = some j ∧ j ≠ i := by
      intro a ha
      obtain ⟨j, hj⟩ := Option.ne_none_iff_exists'.mp (htarget a (by simp [ha]))
      refine ⟨j, hj, ?_⟩
      rintro rfl
      exact hfront a ha (by simpa using hj)
    rw [after_move_front hi hothers, after_cons_next, after_cons_next]
    refine ih (fun a ha => htarget a ?_) fun k => ?_
    · simp only [List.mem_append] at ha
      rcases ha with ha | ha | ha <;> simp [ha]
    · rw [Step.about_append]
      by_cases hik : i = k
      · subst hik
        have hnone : Step.about i front = [] := List.filter_eq_nil_iff.mpr hfront
        have hrest : Step.about i back = Step.about i first := hback
        rw [hnone, hrest, List.nil_append]
      · have hk := h k
        rw [Step.about_append, Step.about_cons_of_ne hi hik, Step.about_cons_of_ne hi hik] at hk
        exact hk

/-! ## Isolation -/

/-- What becomes of an element depends on the steps about it and on what is done to the session as a
whole: the steps about all other elements can be left out of a run. So steps about different
elements can change places, two of them without either being answered differently, and any number of
them as long as those about one and the same element stay in order. However requests end, their
steps leave the last failure of the session alone, and every element keeps what was enqueued. -/
theorem requests_do_not_interfere (s : Session) (steps : List Step) :
    let t := s.after steps
    (∀ k,
      let alone := s.after (steps.filter fun st => st.SparesAllBut k)
      t.queue[k]? = alone.queue[k]? ∧ t.queue.length = alone.queue.length ∧
        t.failure = alone.failure ∧ t.timeout = alone.timeout) ∧
    (∀ a b i j, a.target? = some i → b.target? = some j → i ≠ j →
      ∃ x y u, (t.run [a, b]).value = ([x, y], u) ∧ (t.run [b, a]).value = ([y, x], u)) ∧
    (∀ first second, (∀ st ∈ first ++ second, st.target? ≠ none) →
      (∀ k, Step.about k first = Step.about k second) → t.after first = t.after second) ∧
    (∀ ended, (∀ st ∈ ended, st.target? ≠ none) → (t.after ended).failure = t.failure) ∧
    (∀ (i : Nat) (e : Element), s.queue[i]? = some e →
      ∃ outcome, t.queue[i]? = some (e.withOutcome outcome)) := by
  intro t
  refine ⟨fun k => ?_, fun a b i j ha hb hij => run_comm ha hb hij,
    fun first second htarget h => after_eq_of_about_eq htarget h,
    fun ended hended => failure_after_of_target hended,
    fun i e he => getElem?_queue_after he steps⟩
  obtain ⟨queue, calls, ht, helement, hlength⟩ := (AgreesAt.refl s k).after_filter steps
  have hqueue : t.queue = queue := congrArg Session.queue ht
  have hfailure : t.failure = _ := congrArg Session.failure ht
  have htimeout : t.timeout = _ := congrArg Session.timeout ht
  exact ⟨hqueue ▸ helement, hqueue ▸ hlength, hfailure, htimeout⟩

/-- Of two requests one is refused and the other one runs out of time, in either order. -/
theorem exception_does_not_interfere_with_timeout :
    let sent : List Step :=
      [.send (.read (.zeros .coils 0 8)) 1, .send (.read (.zeros .holdingRegisters 3 1)) 2]
    let refused : Step := .complete 0 ⟨0x81, [2]⟩
    let expired : Step := .wait 1 (.limited 20) [⟨30, .setFinished true⟩]
    let late : Step := .complete 1 ⟨3, [2, 0, 7]⟩
    let t := ({} : Session).after (sent ++ [refused, expired, late])
    let alone := ({} : Session).after (sent ++ [expired, late])
    (∀ st ∈ [refused, expired, late] ++ [expired, refused, late], st.target? ≠ none) ∧
      refused.target? = some 0 ∧ expired.target? = some 1 ∧ 0 ≠ 1 ∧
      t.queue[1]? = alone.queue[1]? ∧ t.queue.length = alone.queue.length ∧
      alone.queue[1]? =
        some ((Command.element (.read (.zeros .holdingRegisters 3 1)) 2).withOutcome
          { status := .failed ⟨.timeout, "Request timeout."⟩ }) ∧
      t.failure = ⟨.noError, ""⟩ ∧
      ({} : Session).after (sent ++ [expired, refused, late]) = t := by
  intro sent refused expired late t alone
  have htarget : ∀ st ∈ [refused, expired, late] ++ [expired, refused, late],
      st.target? ≠ none := by decide
  have habout (k : Nat) :
      Step.about k [refused, expired, late] = Step.about k [expired, refused, late] := by
    match k with
    | 0 | 1 | k + 2 => rfl
  obtain ⟨hleft, -⟩ := requests_do_not_interfere {} (sent ++ [refused, expired, late])
  obtain ⟨helement, hlength, -⟩ := hleft 1
  obtain ⟨-, -, hplaces, hfailure, -⟩ := requests_do_not_interfere {} sent
  have hsplit : t = (({} : Session).after sent).after [refused, expired, late] :=
    after_append {} sent _
  refine ⟨htarget, rfl, rfl, by decide, helement, hlength, by decide, ?_, ?_⟩
  · rw [hsplit, hfailure _ fun st hst => htarget st (List.mem_append_left _ hst)]
    rfl
  · rw [hsplit, after_append, hplaces _ _ htarget habout]

end Modbus.Session
