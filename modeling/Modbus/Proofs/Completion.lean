import Modbus.Proofs.Dispatch
import Modbus.Proofs.Waiting
import Modbus.Session.Complete

/-!
# What a response does to a reply

Completing a request tells its reply a list of actions, `Element.completion`, which does not depend
on how far the reply has come. `Element.outcomeOf` is what they amount to: a pending reply ends with
exactly that outcome (`Element.applyAll_completion`), and a complete one stays as it is.
-/

namespace Modbus

namespace Element

variable (e : Element) (extension : Option Extension) (r : Response)

theorem value_interpret_fst :
    (e.interpret extension r).value.1 =
      if r.IsException then [.setFailure (.exception r.exceptionCode?)]
      else if e.reply.kind = .raw then [.setFinished true]
      else conclusion (r.process extension (some e.unit)).value := by
  unfold interpret
  split
  · rfl
  · cases hkind : e.reply.kind <;> rfl

/-- All that the reply of an element is told when a response completes it. -/
def completion : List Action :=
  .setResponse r :: (e.interpret extension r).value.1

theorem value_complete_fst :
    (e.complete extension r).value.1 = (e.reply.applyAll (e.completion extension r)).value :=
  rfl

/-- The outcome that a response leads a pending reply to. -/
def outcomeOf : Outcome :=
  if r.IsException then
    { e.reply.outcome with status := .failed (.exception r.exceptionCode?), response := some r }
  else if e.reply.kind = .raw then
    { e.reply.outcome with status := .finished, response := some r }
  else if (r.process extension (some e.unit)).value.accepted then
    { status := .finished, response := some r
      result := (r.process extension (some e.unit)).value.unit }
  else
    { e.reply.outcome with status := .failed .invalidResponse, response := some r }

theorem status_outcomeOf : (e.outcomeOf extension r).status ≠ .pending := by
  unfold outcomeOf
  split
  · simp
  · split
    · simp
    · split <;> simp

variable {e}

theorem applyAll_completion (h : ¬ e.reply.IsComplete) :
    (e.reply.applyAll (e.completion extension r)).value =
      { e.reply with outcome := e.outcomeOf extension r } := by
  have hresponse : ¬ Reply.IsComplete
      { e.reply with outcome := (Action.setResponse r).effect e.reply.outcome } := h
  rw [completion, Reply.value_applyAll_cons h, value_interpret_fst, outcomeOf]
  split
  · rw [Reply.value_applyAll_cons hresponse]
    rfl
  · split
    · rw [Reply.value_applyAll_cons hresponse]
      rfl
    · obtain ⟨u, hu⟩ := Option.isSome_iff_exists.mp (r.isSome_unit_process extension e.unit)
      unfold conclusion
      split
      · rw [hu]
        simp only [Option.toList_some, List.map_cons, List.map_nil, List.cons_append,
          List.nil_append]
        rw [Reply.value_applyAll_cons hresponse, Reply.value_applyAll_cons (by exact h)]
        rfl
      · rw [Reply.value_applyAll_cons hresponse]
        rfl

/-- Whatever state its reply is in, a completed element has a complete reply. -/
theorem isComplete_applyAll_completion (e : Element) (extension : Option Extension)
    (r : Response) : (e.reply.applyAll (e.completion extension r)).value.IsComplete := by
  by_cases h : e.reply.IsComplete
  · rw [Reply.applyAll_of_isComplete h]
    exact h
  · rw [applyAll_completion extension r h]
    exact e.status_outcomeOf extension r

end Element

end Modbus
