import Modbus.Proofs.Actions
import Modbus.Proofs.Steps

/-!
# What stays of an element

An element keeps its place in the queue, and all of it but the outcome of its reply stays as it was
enqueued: the request, the unit, the kind of the reply and the server. `Session.getElem?_queue_step`
says so of a step and `Session.getElem?_queue_after` of a run.
-/

namespace Modbus

namespace Reply

theorem atLimit_eq (r : Reply) : r.atLimit = { r with outcome := r.atLimit.outcome } := by
  rw [atLimit]
  split <;> rfl

theorem waited_eq (r : Reply) (limit : Option Nat) (schedule : List TimedAction) :
    r.waited limit schedule = { r with outcome := (r.waited limit schedule).outcome } := by
  unfold waited
  cases hwait : r.wait limit schedule with
  | none => rfl
  | some ended =>
    have htold := value_applyAll_eq r (TimedAction.within limit schedule)
    have hlimit := atLimit_eq (r.applyAll (TimedAction.within limit schedule)).value
    simp only [value_wait hwait]
    rw [hlimit, htold]

end Reply

/-- An element whose reply has another outcome, and which is otherwise the same. -/
def Element.withOutcome (e : Element) (outcome : Outcome) : Element :=
  { e with reply := { e.reply with outcome } }

namespace Session

variable {s : Session} {i : Nat} {e : Element}

theorem getElem?_append_of_some (h : s.queue[i]? = some e) (new : List Element) :
    ∃ outcome, (s.queue ++ new)[i]? = some (e.withOutcome outcome) := by
  have hi : i < s.queue.length := (List.getElem?_eq_some_iff.mp h).1
  exact ⟨e.reply.outcome, (List.getElem?_append_left hi).trans h⟩

theorem getElem?_withReply_of_some (h : s.queue[i]? = some e) (index : Nat)
    (f : Element → Reply) (hf : f e = { e.reply with outcome := (f e).outcome }) :
    ∃ outcome, (s.withReply index f)[i]? = some (e.withOutcome outcome) := by
  rw [withReply, List.getElem?_modify, h, Option.map_eq_map, Option.map_some]
  by_cases hindex : index = i
  · refine ⟨(f e).outcome, ?_⟩
    rw [if_pos hindex, Element.withOutcome, ← hf]
  · refine ⟨e.reply.outcome, ?_⟩
    rw [if_neg hindex]
    rfl

theorem getElem?_queue_step (h : s.queue[i]? = some e) (st : Step) :
    ∃ outcome, (s.step st).value.2.queue[i]? = some (e.withOutcome outcome) := by
  have hsame : ∃ outcome, s.queue[i]? = some (e.withOutcome outcome) := ⟨e.reply.outcome, h⟩
  rw [queue_step]
  cases st with
  | send c slave =>
    rw [queueAfter]
    split
    · exact getElem?_append_of_some h _
    · exact hsame
  | enqueue request slave unit kind =>
    rw [queueAfter]
    split
    · exact hsame
    · exact getElem?_append_of_some h _
  | complete index r =>
    have hreply := Reply.value_applyAll_eq e.reply (e.completion s.extension r)
    rw [← Element.value_complete_fst] at hreply
    exact getElem?_withReply_of_some h index _ hreply
  | wait index patience schedule =>
    exact getElem?_withReply_of_some h index _ (Reply.waited_eq _ _ _)
  | act index a => exact getElem?_withReply_of_some h index _ (Reply.value_apply_eq _ _)
  | process r unit | inspect index | setTimeout ms | changeTransport change => exact hsame

theorem getElem?_queue_after (h : s.queue[i]? = some e) (steps : List Step) :
    ∃ outcome, (s.after steps).queue[i]? = some (e.withOutcome outcome) := by
  induction steps generalizing s e with
  | nil => exact ⟨e.reply.outcome, h⟩
  | cons st steps ih =>
    obtain ⟨outcome, hstep⟩ := getElem?_queue_step h st
    obtain ⟨outcome', hrest⟩ := ih hstep
    exact ⟨outcome', hrest⟩

end Session

end Modbus
