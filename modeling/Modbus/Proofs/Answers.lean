import Modbus.Proofs.Elements
import Modbus.Proofs.RoundTrips

/-!
# Which responses finish a reply

A response says itself which function it answers, and it is decoded by that. What the request of the
element asked for is not looked at: telling apart the responses of different requests is left to
whoever hands a response over together with its element.

So a reply that is to be decoded finishes with the answers to any data access, as
`Session.reply_finishes_exactly_with_an_answer` says, and a read of coils with what a server says of
its discrete inputs (`Session.read_of_coils_finishes_with_discrete_inputs`). What does not answer
the function that it names itself never finishes a reply.
-/

namespace Modbus

/-- Without an extension, the responses that can be decoded are the answers to data accesses. -/
theorem Response.accepted_process_none_iff {r : Response} {unit : Option DataUnit} :
    (r.process none unit).value.accepted = true ↔ ∃ a : Access, a.IsAnswer r := by
  constructor
  · intro haccepted
    cases haccess : Access.ofByte? r.code with
    | none =>
      rw [value_process_of_not_access haccess] at haccepted
      cases haccepted
    | some a =>
      have hcode : r.code = a.toByte := (Access.ofByte?_eq_some_iff.mp haccess).symm
      have hdecodes := (accepted_process_iff hcode none unit).mp haccepted
      exact ⟨a, Access.decodeInto_fst_eq_ok_iff_isAnswer.mp hdecodes⟩
  · intro ⟨a, hanswer⟩
    have hexc : ¬ r.IsException := not_isException_of_rawCode hanswer.1
    have hcode : r.code = a.toByte := (code_eq_rawCode hexc).trans hanswer.1
    exact (accepted_process_iff hcode none unit).mpr
      (Access.decodeInto_fst_eq_ok_iff_isAnswer.mpr hanswer)

namespace Element

variable {e : Element} {r : Response}

/-- The failure that a response brings which is no answer. -/
def failureOf (r : Response) : Failure :=
  if r.IsException then .exception r.exceptionCode? else .invalidResponse

/-- An answer to a data access delivers what that data access makes of the unit of the element. -/
theorem outcomeOf_of_isAnswer {a : Access} (hkind : e.reply.kind = .common) (ha : a.IsAnswer r) :
    ∃ u, a.decodeInto r (some e.unit) = (.ok (), some u) ∧
      e.outcomeOf none r = { status := .finished, response := some r, result := some u } := by
  have haccepted : (a.decodeInto r none).1 = .ok () :=
    Access.decodeInto_fst_eq_ok_iff_isAnswer.mpr ha
  obtain ⟨content, hdecode⟩ := Access.decodeInto_fst_eq_ok_iff.mp haccepted
  refine ⟨content.writeTo e.unit, ?_, outcomeOf_of_decode hkind none hdecode⟩
  rw [Access.decodeInto, hdecode]
  rfl

/-- Without an extension, a response that answers no data access fails the reply, and nothing is
delivered. -/
theorem outcomeOf_of_no_answer (hkind : e.reply.kind = .common)
    (hnone : ∀ a : Access, ¬ a.IsAnswer r) :
    e.outcomeOf none r =
      { e.reply.outcome with status := .failed (failureOf r), response := some r } := by
  have hraw : ¬ e.reply.kind = .raw := by
    rw [hkind]
    decide
  have hrejected : ¬ (r.process none (some e.unit)).value.accepted = true := by
    intro haccepted
    obtain ⟨a, hanswer⟩ := Response.accepted_process_none_iff.mp haccepted
    exact hnone a hanswer
  by_cases hexc : r.IsException
  · rw [outcomeOf, if_pos hexc, failureOf, if_pos hexc]
  · rw [outcomeOf, if_neg hexc, if_neg hraw, if_neg hrejected, failureOf, if_neg hexc]

end Element

namespace Session

variable {s : Session} {c : Command} {slave : UInt8} {e : Element}

/-- The place of the element that a command adds to the queue. -/
theorem getElem?_queue_send (hsent : (s.send c slave).value.1 = .ok e) :
    (s.step (.send c slave)).value.2.queue[s.queue.length]? = some e := by
  obtain ⟨hsend, rfl⟩ := canSend_of_send hsent
  rw [queue_step, queueAfter, if_pos hsend, List.getElem?_append_right (Nat.le_refl _),
    Nat.sub_self]
  rfl

theorem getElem?_queue_complete {i : Nat} (h : s.queue[i]? = some e) (r : Response) :
    (s.after [.complete i r]).queue[i]? =
      some { e with reply := (e.complete s.extension r).value.1 } := by
  rw [after_cons, after_nil, queue_step, queueAfter, withReply, List.getElem?_modify, h,
    Option.map_eq_map, Option.map_some, if_pos rfl]

/-- A reply whose content is wanted finishes exactly with the answers to data accesses, whichever of
them the request was for: at any moment after the request was sent, if the reply is still pending,
an answer finishes it and delivers what its own function makes of the unit of the element, and
everything else fails it and delivers nothing. -/
theorem reply_finishes_exactly_with_an_answer (hextension : s.extension = none)
    (hkind : c.kind = .common) (hsent : (s.send c slave).value.1 = .ok e) (steps : List Step)
    (r : Response) :
    let i := s.queue.length
    let t := s.after (.send c slave :: steps)
    ∃ now next : Outcome,
      t.queue[i]? = some (e.withOutcome now) ∧
      (t.after [.complete i r]).queue[i]? = some (e.withOutcome next) ∧
      (now.status = .pending →
        (next.status = .finished ↔ ∃ a : Access, a.IsAnswer r) ∧
        (∀ a : Access, a.IsAnswer r →
          ∃ u, a.decodeInto r (some e.unit) = (.ok (), some u) ∧
            next = { status := .finished, response := some r, result := some u }) ∧
        ((∀ a : Access, ¬ a.IsAnswer r) →
          next = { now with status := .failed (Element.failureOf r), response := some r })) := by
  intro i t
  have hcommon : e.reply.kind = .common := by
    rw [(canSend_of_send hsent).2]
    exact hkind
  have hstays : ∃ now, t.queue[i]? = some (e.withOutcome now) :=
    getElem?_queue_after (getElem?_queue_send hsent) steps
  obtain ⟨now, hnow⟩ := hstays
  have htext : t.extension = none := (extension_after s (.send c slave :: steps)).trans hextension
  have hcomplete := getElem?_queue_complete hnow r
  have hreply := Reply.value_applyAll_eq (e.withOutcome now).reply
    ((e.withOutcome now).completion none r)
  rw [htext, Element.value_complete_fst, hreply] at hcomplete
  refine ⟨now, _, hnow, hcomplete, fun hpending => ?_⟩
  have hincomplete : ¬ (e.withOutcome now).reply.IsComplete := fun h => h hpending
  rw [Element.applyAll_completion none r hincomplete]
  have hanswer : ∀ a : Access, a.IsAnswer r →
      ∃ u, a.decodeInto r (some e.unit) = (.ok (), some u) ∧
        (e.withOutcome now).outcomeOf none r =
          { status := .finished, response := some r, result := some u } :=
    fun a ha => Element.outcomeOf_of_isAnswer (e := e.withOutcome now) hcommon ha
  have hnone : (∀ a : Access, ¬ a.IsAnswer r) →
      (e.withOutcome now).outcomeOf none r =
        { now with status := .failed (Element.failureOf r), response := some r } :=
    Element.outcomeOf_of_no_answer (e := e.withOutcome now) hcommon
  refine ⟨?_, hanswer, hnone⟩
  by_cases hexists : ∃ a : Access, a.IsAnswer r
  · obtain ⟨a, ha⟩ := hexists
    obtain ⟨u, -, hu⟩ := hanswer a ha
    exact iff_of_true (by rw [hu]) ⟨a, ha⟩
  · have hfailed := hnone fun a ha => hexists ⟨a, ha⟩
    exact iff_of_false (by rw [hfailed]; exact nofun) hexists

/-- A read of coils finishes with an input register, which takes the place of the coils. -/
theorem read_of_coils_finishes_with_an_input_register :
    let c : Command := .read (.zeros .coils 7 3)
    let r : Response := ⟨4, [2, 0x12, 0x34]⟩
    ({} : Session).extension = none ∧ c.kind = .common ∧
      (({} : Session).send c 1).value.1 = .ok (c.element 1) ∧
      ∃ next : Outcome,
        (({} : Session).after [.send c 1, .setTimeout 5, .complete 0 r]).queue[0]? =
          some ((c.element 1).withOutcome next) ∧
        next =
          { status := .finished
            response := some r
            result := some
              { table := .inputRegisters, start := 7, count := 1, values := [0x1234] } } := by
  intro c r
  have hsent : (({} : Session).send c 1).value.1 = .ok (c.element 1) := rfl
  have hanswer : Access.readInputRegisters.IsAnswer r :=
    ⟨rfl, by decide, 2, [0x12, 0x34], rfl, rfl, rfl, by decide⟩
  obtain ⟨now, next, hnow, hnext, hpending⟩ :=
    @reply_finishes_exactly_with_an_answer {} c 1 _ rfl rfl hsent [.setTimeout 5] r
  have hstatus : now.status = .pending := by
    cases hnow
    rfl
  obtain ⟨u, hdecode, hdelivered⟩ := (hpending hstatus).2.1 _ hanswer
  cases hdecode
  exact ⟨rfl, rfl, hsent, next, hnext, hdelivered⟩

/-- What a server says of its discrete inputs finishes a read of coils, and is delivered as the
states of the coils. -/
theorem read_of_coils_finishes_with_discrete_inputs :
    let c : Command := .read (.zeros .coils 0 8)
    let r : Response := ⟨2, [1, 0xA5]⟩
    ({} : Session).extension = none ∧ c.kind = .common ∧
      (({} : Session).send c 1).value.1 = .ok (c.element 1) ∧
      c.request.code = 1 ∧ r.code = 2 ∧
      (({} : Session).after [.send c 1]).queue = [c.element 1] ∧
      (c.element 1).reply.outcome.status = .pending ∧
      (({} : Session).after [.send c 1, .complete 0 r]).queue =
        [(c.element 1).withOutcome
          { status := .finished
            response := some r
            result := some
              { table := .coils
                start := 0
                count := 8
                values := [1, 0, 1, 0, 0, 1, 0, 1] } }] := by
  intro c r
  have hsent : (({} : Session).send c 1).value.1 = .ok (c.element 1) := rfl
  exact ⟨rfl, rfl, hsent, by decide, by decide, rfl, rfl, by decide⟩

end Session

end Modbus
