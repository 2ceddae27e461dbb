import Mathlib.Logic.ExistsUnique
import Modbus.Proofs.Steps

/-!
# The shapes of a reply

Left to the session alone, a reply is only ever seen in one of five shapes: nothing has come, the
wait for it has run out, the server has refused the request, the response made no sense, or it has
been answered. `Element.HasShape` describes them. In a run in which replies are only told what the
session itself tells them (`Session.IsOwnRun`), every element of the queue has exactly one shape at
every moment: completing a request takes several actions, but no state between them is ever left
behind, and whatever comes late finds the reply complete.
-/

namespace Modbus

/-! ## Shapes -/

/-- What can have become of a request. -/
inductive Shape
  | untouched
  | timedOut
  | refused
  | undecodable
  | answered
  deriving DecidableEq, Repr

namespace Element

/-- The reply of an element has a shape. The message of a refusal names the reason exactly if the
payload opens with the code of a defined one. The content of an answer is what decoding it into the
element's own unit yields; for a raw reply there is none. -/
def HasShape (extension : Option Extension) (e : Element) : Shape → Prop
  | .untouched =>
    e.reply.outcome = { status := .pending, response := none, result := none } ∧
      e.reply.failure = ⟨.noError, ""⟩
  | .timedOut =>
    e.reply.outcome =
      { status := .failed ⟨.timeout, "Request timeout."⟩, response := none, result := none }
  | .refused =>
    ∃ r message, r.IsException ∧
      e.reply.outcome =
        { status := .failed ⟨.protocol, message⟩, response := some r, result := none } ∧
      (∀ reason : ExceptionCode, message = "Modbus Exception Response: " ++ reason.name ++ "." ↔
        r.data.head? = some reason.toByte) ∧
      (message = "Modbus Exception Response." ↔
        ∀ reason : ExceptionCode, r.data.head? ≠ some reason.toByte)
  | .undecodable =>
    ∃ r, ¬ r.IsException ∧ e.reply.kind = .common ∧
      e.reply.outcome =
        { status := .failed ⟨.unknown, "An invalid response has been received."⟩
          response := some r, result := none } ∧
      (r.process extension (some e.unit)).value.accepted = false
  | .answered =>
    ∃ r result, ¬ r.IsException ∧
      e.reply.outcome = { status := .finished, response := some r, result := result } ∧
      e.reply.failure = ⟨.noError, ""⟩ ∧
      (e.reply.kind = .raw ∧ result = none ∨
        e.reply.kind = .common ∧ (r.process extension (some e.unit)).value.accepted = true ∧
          result.isSome ∧ result = (r.process extension (some e.unit)).value.unit)

end Element

/-- The shape that a status belongs to. -/
def Shape.ofStatus : Status → Shape
  | .pending => untouched
  | .finished => answered
  | .failed f =>
    match f.kind with
    | .timeout => timedOut
    | .protocol => refused
    | _ => undecodable

theorem ExceptionCode.name_inj {a b : ExceptionCode} : a.name = b.name ↔ a = b := by
  cases a <;> cases b <;> simp [name]

theorem exceptionMessage_some_ne_none (reason : ExceptionCode) :
    exceptionMessage (some reason) ≠ exceptionMessage none := by
  cases reason <;> decide

theorem exceptionMessage_inj {a b : Option ExceptionCode} :
    exceptionMessage a = exceptionMessage b ↔ a = b := by
  constructor
  · intro h
    cases a with
    | none =>
      cases b with
      | none => rfl
      | some b => exact absurd h.symm (exceptionMessage_some_ne_none b)
    | some a =>
      cases b with
      | none => exact absurd h (exceptionMessage_some_ne_none a)
      | some b =>
        have hname := (String.append_right_inj _).mp ((String.append_left_inj _).mp h)
        rw [ExceptionCode.name_inj.mp hname]
  · rintro rfl
    rfl

namespace Element

variable {extension : Option Extension} {e : Element} {shape : Shape}

theorem HasShape.eq_ofStatus (h : e.HasShape extension shape) :
    shape = Shape.ofStatus e.reply.outcome.status := by
  cases shape with
  | untouched => rw [h.1]; rfl
  | timedOut => rw [show e.reply.outcome = _ from h]; rfl
  | refused =>
    obtain ⟨r, message, -, hout, -⟩ := h
    rw [hout]
    rfl
  | undecodable =>
    obtain ⟨r, -, -, hout, -⟩ := h
    rw [hout]
    rfl
  | answered =>
    obtain ⟨r, result, -, hout, -⟩ := h
    rw [hout]
    rfl

theorem hasShape_untouched (h : e.reply.outcome = {}) : e.HasShape extension .untouched :=
  ⟨h, by rw [Reply.failure, h]; rfl⟩

/-- A reply that has a shape and is pending has nothing in it. -/
theorem HasShape.outcome_eq (h : e.HasShape extension shape) (hpending : ¬ e.reply.IsComplete) :
    e.reply.outcome = {} := by
  have hstatus : e.reply.outcome.status = .pending := Decidable.not_not.mp hpending
  have hshape := h.eq_ofStatus
  rw [hstatus] at hshape
  subst hshape
  exact h.1

/-! ### Shapes that arise -/

theorem hasShape_refused {r : Response} (hexc : r.IsException)
    (h : e.reply.outcome =
      { status := .failed (.exception r.exceptionCode?), response := some r, result := none }) :
    e.HasShape extension .refused := by
  have hcode : r.exceptionCode? = r.data.head?.bind ExceptionCode.ofByte? := if_pos hexc
  refine ⟨r, exceptionMessage r.exceptionCode?, hexc, h, fun reason => ?_, ?_⟩
  · have hiff := exceptionMessage_inj (a := r.exceptionCode?) (b := some reason)
    rw [hcode, Option.bind_eq_some_iff] at hiff
    rw [hcode]
    refine hiff.trans ⟨?_, fun hhead => ⟨_, hhead, ExceptionCode.ofByte?_toByte reason⟩⟩
    rintro ⟨b, hhead, hb⟩
    rw [hhead, ExceptionCode.ofByte?_eq_some_iff.mp hb]
  · have hiff := exceptionMessage_inj (a := r.exceptionCode?) (b := none)
    rw [hcode, Option.bind_eq_none_iff] at hiff
    rw [hcode]
    refine hiff.trans ⟨fun hnone reason hhead => ?_, fun hnone b hhead => ?_⟩
    · have := hnone _ hhead
      rw [ExceptionCode.ofByte?_toByte] at this
      cases this
    · cases hb : ExceptionCode.ofByte? b with
      | none => rfl
      | some reason =>
        rw [← ExceptionCode.ofByte?_eq_some_iff.mp hb] at hhead
        exact absurd hhead (hnone reason)

/-- A response brings an untouched reply into the shape of its outcome. -/
theorem exists_hasShape_outcomeOf (h : e.reply.outcome = {}) (r : Response) :
    ∃ shape, HasShape extension
      { e with reply := { e.reply with outcome := e.outcomeOf extension r } } shape := by
  by_cases hexc : r.IsException
  · refine ⟨.refused, hasShape_refused hexc ?_⟩
    simp only [outcomeOf, if_pos hexc, h]
  · by_cases hraw : e.reply.kind = .raw
    · refine ⟨.answered, r, none, hexc, ?_, ?_, .inl ⟨hraw, rfl⟩⟩
      · simp only [outcomeOf, if_neg hexc, if_pos hraw, h]
      · simp only [outcomeOf, if_neg hexc, if_pos hraw]
        rfl
    · have hcommon : e.reply.kind = .common := by
        cases hkind : e.reply.kind with
        | raw => exact absurd hkind hraw
        | common => rfl
      by_cases haccepted : (r.process extension (some e.unit)).value.accepted = true
      · refine ⟨.answered, r, _, hexc, ?_, ?_, .inr ⟨hcommon, haccepted, ?_, rfl⟩⟩
        · simp only [outcomeOf, if_neg hexc, if_neg hraw, if_pos haccepted]
        · simp only [outcomeOf, if_neg hexc, if_neg hraw, if_pos haccepted]
          rfl
        · exact r.isSome_unit_process extension e.unit
      · refine ⟨.undecodable, r, hexc, hcommon, ?_, ?_⟩
        · simp only [outcomeOf, if_neg hexc, if_neg hraw, if_neg haccepted, h]
          rfl
        · simpa using haccepted

end Element

/-! ## What the session tells replies -/

namespace Element

variable (extension : Option Extension) (e : Element)

/-- The schedule of a wait during which responses for the element arrive, each at its moment. -/
def arrivals (responses : List (Nat × Response)) : List TimedAction :=
  responses.flatMap fun (delay, r) => (e.completion extension r).map (TimedAction.mk delay)

theorem arrivals_cons (delay : Nat) (r : Response) (responses : List (Nat × Response)) :
    e.arrivals extension ((delay, r) :: responses) =
      (e.completion extension r).map (TimedAction.mk delay) ++ e.arrivals extension responses :=
  rfl

/-- The first response that arrives in time is all that counts in a wait. -/
theorem applyAll_within_arrivals (limit : Option Nat) (responses : List (Nat × Response)) :
    (e.reply.applyAll (TimedAction.within limit (e.arrivals extension responses))).value = e.reply ∨
    ∃ r, (e.reply.applyAll (TimedAction.within limit (e.arrivals extension responses))).value =
      (e.complete extension r).value.1 := by
  cases responses with
  | nil => exact .inl rfl
  | cons response responses =>
    obtain ⟨delay, r⟩ := response
    by_cases hwithin : TimedAction.IsWithin ⟨delay, .setResponse r⟩ limit
    · right
      have hgroup : ∀ t ∈ (e.completion extension r).map (TimedAction.mk delay),
          t.IsWithin limit := by
        intro t ht
        obtain ⟨a, -, rfl⟩ := List.mem_map.mp ht
        exact hwithin
      have hactions : ((e.completion extension r).map (TimedAction.mk delay)).map
          TimedAction.action = e.completion extension r := by
        simp [Function.comp_def]
      refine ⟨r, ?_⟩
      rw [arrivals_cons, TimedAction.within_append_of_isWithin hgroup, hactions,
        Reply.value_applyAll_append,
        Reply.applyAll_of_isComplete (e.isComplete_applyAll_completion extension r)]
      rfl
    · left
      rw [arrivals_cons, completion, List.map_cons, List.cons_append,
        TimedAction.within_cons_of_not_isWithin hwithin]
      rfl

/-- During a wait a reply is completed by a response, or it runs out of time, or nothing happens
to it. -/
theorem waited_arrivals (limit : Option Nat) (responses : List (Nat × Response)) :
    (∃ r, e.reply.waited limit (e.arrivals extension responses) =
      (e.complete extension r).value.1) ∨
    e.reply.waited limit (e.arrivals extension responses) = e.reply.atLimit ∨
    e.reply.waited limit (e.arrivals extension responses) = e.reply := by
  unfold Reply.waited
  cases hwait : e.reply.wait limit (e.arrivals extension responses) with
  | none => exact .inr (.inr rfl)
  | some ended =>
    simp only [Reply.value_wait hwait]
    rcases e.applyAll_within_arrivals extension limit responses with hnone | ⟨r, hr⟩
    · rw [hnone]
      exact .inr (.inl rfl)
    · rw [hr]
      have hcomplete : (e.complete extension r).value.1.IsComplete :=
        e.isComplete_applyAll_completion extension r
      exact .inl ⟨r, Reply.atLimit_of_isComplete hcomplete⟩

variable {extension} {e}

theorem HasShape.complete {shape : Shape} (h : e.HasShape extension shape) (r : Response) :
    ∃ shape', HasShape extension
      { e with reply := (e.complete extension r).value.1 } shape' := by
  rw [value_complete_fst]
  by_cases hcomplete : e.reply.IsComplete
  · rw [Reply.applyAll_of_isComplete hcomplete]
    exact ⟨shape, h⟩
  · rw [applyAll_completion extension r hcomplete]
    exact exists_hasShape_outcomeOf (h.outcome_eq hcomplete) r

theorem HasShape.atLimit {shape : Shape} (h : e.HasShape extension shape) :
    ∃ shape', HasShape extension { e with reply := e.reply.atLimit } shape' := by
  by_cases hcomplete : e.reply.IsComplete
  · rw [Reply.atLimit_of_isComplete hcomplete]
    exact ⟨shape, h⟩
  · refine ⟨.timedOut, ?_⟩
    rw [Reply.atLimit, if_pos (Decidable.not_not.mp hcomplete), h.outcome_eq hcomplete]
    rfl

end Element

/-! ## Runs -/

namespace Session

/-- A step tells replies only what the session itself tells them: nobody mutates a reply directly,
and what happens during a wait are responses that arrive for the element. -/
def IsOwnStep (s : Session) : Step → Prop
  | .act _ _ => False
  | .wait index _ schedule =>
    ∀ e, s.queue[index]? = some e → ∃ responses, schedule = e.arrivals s.extension responses
  | _ => True

/-- A run of steps of which each tells replies only what the session itself tells them. -/
def IsOwnRun : Session → List Step → Prop
  | _, [] => True
  | s, st :: steps => s.IsOwnStep st ∧ (s.step st).value.2.IsOwnRun steps

/-- Every element of the queue has a shape. -/
def IsShaped (s : Session) : Prop :=
  ∀ e ∈ s.queue, ∃ shape, e.HasShape s.extension shape

theorem IsShaped.step {s : Session} (h : s.IsShaped) {st : Step} (hst : s.IsOwnStep st) :
    (s.step st).value.2.IsShaped := by
  rw [IsShaped, queue_step, extension_step]
  have hadd : ∀ e : Element, e.reply.outcome = {} →
      ∀ e' ∈ s.queue ++ [e], ∃ shape, e'.HasShape s.extension shape := by
    intro e he e' he'
    rcases List.mem_append.mp he' with hold | hnew
    · exact h e' hold
    · rw [List.mem_singleton.mp hnew]
      exact ⟨.untouched, Element.hasShape_untouched he⟩
  cases st with
  | send c slave =>
    rw [queueAfter]
    split
    · exact hadd _ rfl
    · exact h
  | enqueue request slave unit kind =>
    rw [queueAfter]
    split
    · exact h
    · exact hadd _ rfl
  | complete index r =>
    refine forall_mem_withReply h fun e he => ?_
    obtain ⟨shape, hshape⟩ := h e (List.mem_of_getElem? he)
    exact hshape.complete r
  | wait index patience schedule =>
    refine forall_mem_withReply h fun e he => ?_
    obtain ⟨shape, hshape⟩ := h e (List.mem_of_getElem? he)
    obtain ⟨responses, rfl⟩ := hst e he
    rcases e.waited_arrivals s.extension (s.limit? patience) responses with
      ⟨r, hr⟩ | hlimit | hsame
    · rw [hr]
      exact hshape.complete r
    · rw [hlimit]
      exact hshape.atLimit
    · rw [hsame]
      exact ⟨shape, hshape⟩
  | act index a => exact absurd hst id
  | process r unit => exact h
  | inspect index => exact h
  | setTimeout ms => exact h
  | changeTransport change => exact h

theorem IsShaped.after {s : Session} (h : s.IsShaped) {steps : List Step}
    (hsteps : s.IsOwnRun steps) : (s.after steps).IsShaped := by
  induction steps generalizing s with
  | nil => exact h
  | cons st steps ih => exact ih (h.step hsteps.1) hsteps.2

/-- In a run from an empty queue in which nobody but the session tells replies anything, every
element has exactly one shape at the end, and so at every moment. -/
theorem every_reply_has_one_shape (s : Session) (steps : List Step) (hqueue : s.queue = [])
    (hsteps : s.IsOwnRun steps) :
    ∀ e ∈ (s.after steps).queue, ∃! shape, e.HasShape s.extension shape := by
  have hshaped : s.IsShaped := by
    intro e he
    rw [hqueue] at he
    cases he
  intro e he
  obtain ⟨shape, hshape⟩ := hshaped.after hsteps e he
  rw [extension_after] at hshape
  exact ⟨shape, hshape, fun other hother => hother.eq_ofStatus.trans hshape.eq_ofStatus.symm⟩

/-- A coil is read, its state arrives 3 ms into a wait, and an exception follows. -/
theorem late_exception_leaves_one_shape :
    let steps : List Step :=
      [.send (.read (.zeros .coils 5 1)) 1,
        .wait 0 (.limited 20)
          [⟨3, .setResponse ⟨1, [1, 0xFF]⟩⟩, ⟨3, .setResult (.ofCoils 5 [true])⟩,
            ⟨3, .setFinished true⟩],
        .complete 0 ⟨0x81, [2]⟩]
    ({} : Session).queue = [] ∧ ({} : Session).IsOwnRun steps ∧
      (({} : Session).after steps).queue.length = 1 ∧
      ∀ e ∈ (({} : Session).after steps).queue, ∃! shape, e.HasShape none shape := by
  intro steps
  have hsteps : ({} : Session).IsOwnRun steps := by
    refine ⟨trivial, fun e he => ⟨[(3, ⟨1, [1, 0xFF]⟩)], ?_⟩, trivial, trivial⟩
    cases he
    decide
  exact ⟨rfl, hsteps, by decide, every_reply_has_one_shape {} steps rfl hsteps⟩

end Session

end Modbus
