import Mathlib.Data.List.Basic
import Modbus.Proofs.Isolation
import Modbus.Proofs.Routing
import Modbus.Proofs.Tellings

/-!
# What the log tells

Three kinds of log lines say that something has gone wrong: a command has not been sent, a reply has
been told something after it was complete, and a response could not be decoded.
`Session.log_tells_what_went_wrong` reads them off the log of a whole run, picked out by their text,
and finds one line for each such occurrence, in order, and no other.

What a single step logs is `Session.logged`, and what it tells a reply is `Session.told`, each with
one case for each kind of step. The three kinds of events are counted there, step by step.
-/

namespace Modbus

/-! ## Responses -/

/-- Why the response to a data access cannot be decoded, if it is one and cannot. -/
def Response.rejection? (r : Response) : Option DecodeError :=
  (Access.ofByte? r.code).bind fun a =>
    match a.decode r with
    | .ok _ => none
    | .error reason => some reason

theorem Response.log_process (r : Response) (x : Option Extension) (unit : Option DataUnit) :
    (r.process x unit).log = r.rejection?.toList.map (.decodingFailed r.code) := by
  unfold process rejection?
  cases Access.ofByte? r.code with
  | none => cases x <;> rfl
  | some a =>
    simp only [Access.decodeInto, Option.bind_some]
    cases a.decode r <;> rfl

/-- The decoder of a data access rejects the response. -/
theorem Response.isSome_rejection?_iff {r : Response} (x : Option Extension)
    (unit : Option DataUnit) :
    r.rejection?.isSome ↔ r.code ∈ builtInCodes ∧ (r.process x unit).value.accepted = false := by
  cases h : Access.ofByte? r.code with
  | none =>
    have hcode := Access.ofByte?_eq_none_iff.mp h
    simp [rejection?, h, hcode]
  | some a =>
    have hcode : r.code ∈ builtInCodes :=
      mem_builtInCodes_iff.mpr ⟨a, Access.ofByte?_eq_some_iff.mp h⟩
    rw [value_process_of_access h, rejection?, h]
    simp only [Option.bind_some, hcode, true_and, Access.decodeInto]
    cases a.decode r <;> simp [Except.isOk, Except.toBool]

namespace Element

variable (e : Element) (x : Option Extension) (r : Response)

theorem log_interpret :
    (e.interpret x r).log =
      if r.IsException then [.exceptionReceived r.code r.exceptionCode?]
      else if e.reply.kind = .raw then []
      else r.rejection?.toList.map (.decodingFailed r.code) := by
  unfold interpret
  split
  · rfl
  · cases hkind : e.reply.kind with
    | raw => rfl
    | common => simp [← r.log_process x (some e.unit)]

/-- Completing logs what the reply says to the response, what decoding says, and what the reply says
to the rest. -/
theorem log_complete :
    (e.complete x r).log =
      (e.reply.apply (.setResponse r)).log ++ ((e.interpret x r).log ++
        ((e.reply.apply (.setResponse r)).value.applyAll (e.interpret x r).value.1).log) := by
  simp [complete]

theorem late_complete :
    (e.complete x r).log.filterMap Event.late? =
      Telling.lateSlaves (e.reply.tellings (e.completion x r)) := by
  have hinterpret : (e.interpret x r).log.filterMap Event.late? = [] := by
    rw [log_interpret]
    repeat' split
    all_goals simp [Event.late?, List.filterMap_map, Function.comp_def]
  have hresponse := Reply.late_applyAll e.reply [.setResponse r]
  rw [Reply.applyAll_singleton] at hresponse
  have hcompletion : e.reply.tellings (e.completion x r) = e.reply.tellings [.setResponse r] ++
      (e.reply.apply (.setResponse r)).value.tellings (e.interpret x r).value.1 := rfl
  rw [log_complete, hcompletion, Telling.lateSlaves_append, ← hresponse]
  simp [hinterpret, Reply.late_applyAll]

theorem filterMap_log_complete {α : Type} {pick : Event → Option α}
    (hlate : ∀ slave, pick (.lateUpdate slave) = none)
    (hexception : ∀ code reason, pick (.exceptionReceived code reason) = none) :
    (e.complete x r).log.filterMap pick =
      if e.reply.kind = .common ∧ ¬ r.IsException then
        r.rejection?.toList.filterMap fun reason => pick (.decodingFailed r.code reason)
      else [] := by
  have hresponse := Reply.filterMap_log_applyAll hlate e.reply [.setResponse r]
  rw [Reply.applyAll_singleton] at hresponse
  rw [log_complete]
  simp only [List.filterMap_append, hresponse, Reply.filterMap_log_applyAll hlate,
    List.nil_append, List.append_nil, log_interpret]
  by_cases hrefused : r.IsException
  · simp [hrefused, hexception]
  · cases e.reply.kind <;> simp [hrefused, List.filterMap_map]

/-- What completing an element tells its reply: one or two things about the response, and then that
the reply has come to its end. -/
theorem exists_completion_eq :
    ∃ front last, e.completion x r = front ++ [last] ∧
      (∀ a ∈ front, a.ending? = none) ∧ (∀ a ∈ front ++ [last], a ≠ .setFinished false) ∧
      front.length = if e.reply.kind = .common ∧ ¬ r.IsException ∧
        (r.process x (some e.unit)).value.accepted then 2 else 1 := by
  rw [completion, value_interpret_fst]
  by_cases hexception : r.IsException
  · exact ⟨[.setResponse r], .setFailure (.exception r.exceptionCode?), by simp [hexception],
      by simp [Action.ending?], by simp, by simp [hexception]⟩
  · cases hkind : e.reply.kind with
    | raw =>
      exact ⟨[.setResponse r], .setFinished true, by simp [hexception],
        by simp [Action.ending?], by simp, by simp⟩
    | common =>
      by_cases haccepted : (r.process x (some e.unit)).value.accepted
      · obtain ⟨u, hu⟩ := Option.isSome_iff_exists.mp (r.isSome_unit_process x e.unit)
        exact ⟨[.setResponse r, .setResult u], .setFinished true,
          by simp [hexception, conclusion, haccepted, hu],
          by simp [Action.ending?], by simp, by simp [haccepted, hexception]⟩
      · exact ⟨[.setResponse r], .setFailure .invalidResponse,
          by simp [hexception, conclusion, haccepted],
          by simp [Action.ending?], by simp, by simp [haccepted]⟩

/-- How many of the actions that completing an element comes to are late. -/
def lateCount : Nat :=
  if ¬ e.reply.IsComplete then 0
  else if e.reply.kind = .common ∧ ¬ r.IsException ∧
    (r.process x (some e.unit)).value.accepted then 3
  else 2

theorem late_complete_eq :
    (e.complete x r).log.filterMap Event.late? =
      List.replicate (e.lateCount x r) e.reply.slave := by
  obtain ⟨front, last, hcompletion, hfront, hsaid, hlength⟩ := e.exists_completion_eq x r
  rw [late_complete, hcompletion, lateCount]
  by_cases hcomplete : e.reply.IsComplete
  -- A complete reply stays as it is, so each of the two or three actions finds it complete.
  · have hlate : ∀ t ∈ (front ++ [last]).map (Telling.mk e.reply), t.IsLate := by
      intro t ht
      obtain ⟨a, ha, rfl⟩ := List.mem_map.mp ht
      exact ⟨hcomplete, hsaid a ha⟩
    have hall := List.filter_eq_self.mpr fun t ht => decide_eq_true (hlate t ht)
    rw [Reply.tellings_of_isComplete hcomplete, Telling.lateSlaves, hall, List.map_map,
      if_neg (Decidable.not_not.mpr hcomplete)]
    refine List.eq_replicate_iff.mpr ⟨?_, fun slave hslave => ?_⟩
    · rw [List.length_map, List.length_append, hlength, List.length_singleton]
      split <;> rfl
    · obtain ⟨a, -, rfl⟩ := List.mem_map.mp hslave
      rfl
  · rw [if_pos hcomplete, Reply.lateSlaves_tellings_of_pending hcomplete hfront]
    rfl

end Element

/-! ## Steps -/

namespace Session

theorem log_send (s : Session) (c : Command) (slave : UInt8) :
    (s.send c slave).log = (s.obstacle? c.request slave).toList.map .sendFailed := by
  have hobstacle : s.obstacle? (c.element slave).request (c.element slave).reply.slave =
      s.obstacle? c.request slave := rfl
  have hover := s.handOver_eq (c.element slave)
  rw [hobstacle] at hover
  unfold send
  cases h : s.obstacle? c.request slave <;> simp only [h] at hover <;> rw [hover] <;> rfl

theorem log_withElement (s : Session) (index : Nat)
    (g : Element → Logged (Option Answer × Session)) :
    (s.withElement index g).log = s.queue[index]?.elim [] fun e => (g e).log := by
  unfold withElement
  cases s.queue[index]? <;> rfl

/-- The events that a step logs. -/
def logged (s : Session) : Step → List Event
  | .send c slave => (s.obstacle? c.request slave).toList.map .sendFailed
  | .complete index r => s.queue[index]?.elim [] fun e => (e.complete s.extension r).log
  | .process r unit => (r.process s.extension unit).log
  | .wait index patience schedule =>
    s.queue[index]?.elim [] fun e => e.reply.waitLog (s.limit? patience) schedule
  | .act index a => s.queue[index]?.elim [] fun e => (e.reply.applyAll [a]).log
  | .setTimeout ms => if s.timeout = ms then [] else [.timeoutChanged s.timeout ms]
  | .enqueue _ _ _ _ | .inspect _ | .changeTransport _ => []

/-- All that a step tells the reply of the element it is about. -/
def told (s : Session) : Step → Element → List Action
  | .complete _ r, e => e.completion s.extension r
  | .wait _ patience schedule, e => e.reply.waitActions (s.limit? patience) schedule
  | .act _ a, _ => [a]
  | .send _ _, _ | .enqueue _ _ _ _, _ | .process _ _, _ | .inspect _, _ | .setTimeout _, _
  | .changeTransport _, _ => []

/-- What each of the actions finds that a step tells a reply. -/
def tellings (s : Session) (st : Step) : List Telling :=
  (st.target?.bind fun index => s.queue[index]?).elim [] fun e => e.reply.tellings (s.told st e)

/-- The response that a step looks for a decoder for, and the unit it is to be decoded into. -/
def decoded? (s : Session) : Step → Option (Response × Option DataUnit)
  | .process r unit => some (r, unit)
  | .complete index r =>
    s.queue[index]?.bind fun e =>
      if e.reply.kind = .common ∧ ¬ r.IsException then some (r, some e.unit) else none
  | .send _ _ | .enqueue _ _ _ _ | .wait _ _ _ | .act _ _ | .inspect _ | .setTimeout _
  | .changeTransport _ => none

/-- The code of the response that a step cannot decode, and why, if there is one. -/
def rejection? (s : Session) (st : Step) : Option (UInt8 × DecodeError) :=
  (s.decoded? st).bind fun decoded => decoded.1.rejection?.map (decoded.1.code, ·)

theorem log_step (s : Session) (st : Step) : (s.step st).log = s.logged st := by
  cases st with
  | send c slave =>
    rw [step, logged, ← log_send]
    exact List.append_nil _
  | complete index r =>
    rw [step, log_withElement, logged]
    cases s.queue[index]? with
    | none => rfl
    | some e => exact List.append_nil _
  | process r unit =>
    rw [step, logged]
    exact List.append_nil _
  | wait index patience schedule =>
    rw [step, log_withElement, logged]
    cases s.queue[index]? with
    | none => rfl
    | some e =>
      rw [Option.elim_some, Option.elim_some, Reply.waitLog]
      cases e.reply.wait (s.limit? patience) schedule with
      | none => rfl
      | some ended => exact List.append_nil _
  | act index a =>
    rw [step, log_withElement, logged]
    cases s.queue[index]? <;> rfl
  | setTimeout ms =>
    rw [step, logged, setTimeout]
    split <;> rfl
  | inspect index =>
    rw [step, log_withElement, logged]
    cases s.queue[index]? <;> rfl
  | enqueue request slave unit kind | changeTransport change => rfl

/-- What a step puts in the place of a reply is what comes of all that the reply is told. -/
theorem replyAfter_eq (s : Session) (st : Step) (e : Element) :
    s.replyAfter st e = (e.reply.applyAll (s.told st e)).value := by
  cases st with
  | complete index r => exact e.value_complete_fst s.extension r
  | wait index patience schedule => exact (e.reply.value_applyAll_waitActions _ schedule).symm
  | act index a => exact congrArg Logged.value (e.reply.applyAll_singleton a).symm
  | send c slave | enqueue request slave unit kind | process r unit | inspect index
  | setTimeout ms | changeTransport change => rfl

theorem late_logged (s : Session) (st : Step) :
    (s.logged st).filterMap Event.late? = Telling.lateSlaves (s.tellings st) := by
  cases st with
  | send c slave =>
    simp [logged, tellings, Step.target?, List.filterMap_map, Function.comp_def, Event.late?,
      Telling.lateSlaves]
  | complete index r =>
    simp only [logged, tellings, Step.target?, Option.bind_some]
    cases s.queue[index]? with
    | none => rfl
    | some e => exact e.late_complete s.extension r
  | process r unit =>
    simp [logged, tellings, Step.target?, Response.log_process, List.filterMap_map,
      Function.comp_def, Event.late?, Telling.lateSlaves]
  | wait index patience schedule =>
    simp only [logged, tellings, Step.target?, Option.bind_some]
    cases s.queue[index]? with
    | none => rfl
    | some e => exact e.reply.late_waitLog ..
  | act index a =>
    simp only [logged, tellings, Step.target?, Option.bind_some]
    cases s.queue[index]? with
    | none => rfl
    | some e => exact e.reply.late_applyAll [a]
  | setTimeout ms =>
    rw [logged]
    split <;> rfl
  | enqueue request slave unit kind | inspect index | changeTransport change => rfl

/-- Of the events that are picked out of what a step logs, those about commands are for the obstacle
to its command, those about responses for the rejection of its response. -/
theorem filterMap_logged {α : Type} {pick : Event → Option α}
    (hlate : ∀ slave, pick (.lateUpdate slave) = none)
    (hexception : ∀ code reason, pick (.exceptionReceived code reason) = none)
    (htimedOut : ∀ slave ms, pick (.timedOut slave ms) = none)
    (hchanged : ∀ before after, pick (.timeoutChanged before after) = none)
    (s : Session) (st : Step) :
    (s.logged st).filterMap pick =
      (s.obstacleTo? st).toList.filterMap (fun reason => pick (.sendFailed reason)) ++
        (s.rejection? st).toList.filterMap fun rejection =>
          pick (.decodingFailed rejection.1 rejection.2) := by
  cases st with
  | send c slave =>
    simp [logged, obstacleTo?, rejection?, decoded?, List.filterMap_map]
  | complete index r =>
    simp only [logged, obstacleTo?, rejection?, decoded?]
    cases s.queue[index]? with
    | none => rfl
    | some e =>
      rw [Option.elim_some, e.filterMap_log_complete s.extension r hlate hexception,
        Option.bind_some]
      split
      · rw [Option.bind_some]
        cases r.rejection? <;> rfl
      · rfl
  | process r unit =>
    rw [logged, obstacleTo?, rejection?, decoded?, Response.log_process, Option.bind_some]
    cases r.rejection? <;> rfl
  | wait index patience schedule =>
    rw [logged]
    cases s.queue[index]? with
    | none => rfl
    | some e => exact Reply.filterMap_waitLog hlate htimedOut ..
  | act index a =>
    rw [logged]
    cases s.queue[index]? with
    | none => rfl
    | some e => exact Reply.filterMap_log_applyAll hlate ..
  | setTimeout ms =>
    rw [logged]
    split
    · rfl
    · exact List.filterMap_cons_none (hchanged _ _)
  | enqueue request slave unit kind | inspect index | changeTransport change => rfl

theorem warning_logged (s : Session) (st : Step) :
    (s.logged st).filterMap Event.warning? = (s.obstacleTo? st).toList := by
  rw [filterMap_logged (fun _ => rfl) (fun _ _ => rfl) (fun _ _ => rfl) (fun _ _ => rfl)]
  simp [Event.warning?]

theorem rejection_logged (s : Session) (st : Step) :
    (s.logged st).filterMap Event.rejection? = (s.rejection? st).toList := by
  rw [filterMap_logged (fun _ => rfl) (fun _ _ => rfl) (fun _ _ => rfl) (fun _ _ => rfl)]
  simp [Event.rejection?]

/-! ## Runs -/

namespace Moment

/-- The events that the step logged. -/
def log (m : Moment) : List Event := (m.before.step m.step).log

/-- Why the command was not sent, if the step is one that answered so. -/
def refusal? (m : Moment) : Option SendError :=
  match m.step, m.answer with
  | .send _ _, some (.sent (.error reason)) => some reason
  | _, _ => none

theorem log_eq (m : Moment) : m.log = m.before.logged m.step := m.before.log_step m.step

theorem refusal?_eq (m : Moment) : m.refusal? = m.before.obstacleTo? m.step := by
  obtain ⟨s, st⟩ := m
  cases st with
  | send c slave =>
    have hanswer : (Moment.mk s (.send c slave)).answer = some (.sent (s.send c slave).value.1) :=
      rfl
    rw [refusal?, hanswer, value_send, obstacleTo?]
    cases s.obstacle? c.request slave <;> rfl
  | enqueue request slave unit kind | complete index r | process r unit
  | wait index patience schedule | act index a | inspect index | setTimeout ms
  | changeTransport change => rfl

theorem tellings_eq (m : Moment) {i : Nat} {e : Element} (hi : m.step.target? = some i)
    (he : m.before.queue[i]? = some e) :
    m.before.tellings m.step = e.reply.tellings (m.before.told m.step e) := by
  rw [tellings, hi, Option.bind_some, he]
  rfl

theorem queue_after_eq (m : Moment) {i : Nat} {e : Element} (hi : m.step.target? = some i)
    (he : m.before.queue[i]? = some e) :
    m.after.queue[i]? =
      some { e with reply := (e.reply.applyAll (m.before.told m.step e)).value } := by
  have hqueue : m.after.queue = m.before.withReply i (m.before.replyAfter m.step) := by
    rw [after_eq_next, next_of_target hi]
    rfl
  rw [hqueue, withReply, List.getElem?_modify, he, ← replyAfter_eq]
  simp

theorem exists_rejection?_eq_some_iff {m : Moment} {code : UInt8} :
    (∃ reason, m.before.rejection? m.step = some (code, reason)) ↔
      ∃ r unit, m.before.decoded? m.step = some (r, unit) ∧ r.code = code ∧
        code ∈ builtInCodes ∧ (r.process m.before.extension unit).value.accepted = false := by
  simp only [rejection?, Option.bind_eq_some_iff, Option.map_eq_some_iff, Prod.exists,
    Prod.mk.injEq]
  constructor
  · rintro ⟨reason, r, unit, hdecoded, _, hreason, rfl, rfl⟩
    obtain ⟨hcode, hrejected⟩ := (Response.isSome_rejection?_iff m.before.extension unit).mp
      (Option.isSome_of_eq_some hreason)
    exact ⟨r, unit, hdecoded, rfl, hcode, hrejected⟩
  · rintro ⟨r, unit, hdecoded, rfl, hcode, hrejected⟩
    obtain ⟨reason, hreason⟩ := Option.isSome_iff_exists.mp
      ((Response.isSome_rejection?_iff m.before.extension unit).mpr ⟨hcode, hrejected⟩)
    exact ⟨reason, r, unit, hdecoded, reason, hreason, rfl, rfl⟩

end Moment

/-- The log of a run is that of its steps. -/
theorem log_run_eq (s : Session) (steps : List Step) :
    (s.run steps).log =
      (s.history (steps.map fun st => ⟨st, s.extension⟩)).flatMap Moment.log := by
  induction steps generalizing s with
  | nil => rfl
  | cons st steps ih =>
    have hrest := ih (s.step st).value.2
    rw [extension_step] at hrest
    rw [log_run_cons, hrest]
    rfl

/-- The log of all turns says what went wrong, line by line. There is one warning for each command
that was not sent, with the reason its caller got: the connection is not up, the request not valid,
or the queue refuses the server. There is one line about an update that is ignored for each action
that came too late, so that completing an element whose reply is complete adds three of them if the
response is decoded, two if it is not, and none if the reply is pending. And there is one line for
each response with a built-in code that could not be decoded, and none for those that the extension
decodes. The actions counted are those that make a reply what it is after the step. With one and the
same extension the log is that of a run. -/
theorem log_tells_what_went_wrong (s : Session) (turns : List Turn) :
    let moments := s.history turns
    let lines := (moments.flatMap Moment.log).map Event.line
    lines.filter (fun line => OpensWith "WARN: " line) =
      (moments.filterMap Moment.refusal?).map Event.warningLine ∧
    lines.filter (fun line =>
        OpensWith "DEBUG: Ignoring update of already completed reply from slave " line) =
      ((moments.flatMap fun m => m.before.tellings m.step).filter fun t => t.IsLate).map
        (fun t => Event.lateLine t.reply.slave) ∧
    lines.filter (fun line => OpensWith "DEBUG: Invalid response for function code " line) =
      (moments.filterMap fun m => m.before.rejection? m.step).map Event.rejectionLine ∧
    (∀ m ∈ moments,
      m.refusal? = m.before.obstacleTo? m.step ∧
      (∀ i e, m.step.target? = some i → m.before.queue[i]? = some e →
        m.before.tellings m.step = e.reply.tellings (m.before.told m.step e) ∧
        m.after.queue[i]? =
          some { e with reply := (e.reply.applyAll (m.before.told m.step e)).value }) ∧
      ∀ code, (∃ reason, m.before.rejection? m.step = some (code, reason)) ↔
        ∃ r unit, m.before.decoded? m.step = some (r, unit) ∧ r.code = code ∧
          code ∈ builtInCodes ∧ (r.process m.before.extension unit).value.accepted = false) ∧
    (∀ (e : Element) (x : Option Extension) (r : Response),
      ((e.complete x r).log.map Event.line).filter (fun line =>
          OpensWith "DEBUG: Ignoring update of already completed reply from slave " line) =
        List.replicate (e.lateCount x r) (Event.lateLine e.reply.slave)) ∧
    ∀ steps, (s.run steps).log =
      (s.history (steps.map fun st => ⟨st, s.extension⟩)).flatMap Moment.log := by
  intro moments lines
  refine ⟨?_, ?_, ?_,
    fun m _ => ⟨m.refusal?_eq, fun i e hi he => ⟨m.tellings_eq hi he, m.queue_after_eq hi he⟩,
      fun code => Moment.exists_rejection?_eq_some_iff⟩,
    fun e x r => ?_, s.log_run_eq⟩
  · rw [Event.filter_warnings, List.filterMap_flatMap]
    simp only [Moment.log_eq, warning_logged, ← Moment.refusal?_eq]
    rw [← List.filterMap_eq_flatMap_toList]
  · rw [Event.filter_lateUpdates, List.filterMap_flatMap]
    simp only [Moment.log_eq, late_logged, Telling.lateSlaves]
    rw [List.filter_flatMap, List.map_flatMap, List.map_flatMap]
    simp only [List.map_map, Function.comp_def]
  · rw [Event.filter_rejections, List.filterMap_flatMap]
    simp only [Moment.log_eq, rejection_logged]
    rw [← List.filterMap_eq_flatMap_toList]
  · rw [Event.filter_lateUpdates, e.late_complete_eq, List.map_replicate]

/-- Three commands fail, each for another reason, and a reply that is finished gets two more
responses, of which the second cannot be decoded. The first of these comes to three late actions,
which leave the element as it is. -/
theorem log_tells_of_nine_mishaps :
    let read : Command := .read (.zeros .coils 0 8)
    let states : Response := ⟨1, [1, 5]⟩
    let steps : List Step :=
      [.changeTransport { state := some .closed }, .send read 3,
        .changeTransport { state := some .connected }, .send (.raw ⟨0, []⟩) 3, .send read 3,
        .complete 0 states, .complete 0 states, .complete 0 ⟨1, [2, 5]⟩,
        .act 0 (.setFinished false), .changeTransport { refusing := some true }, .send read 3]
    let moments := ({} : Session).history (steps.map fun st => ⟨st, none⟩)
    let lines := (({} : Session).run steps).log.map Event.line
    let result : DataUnit :=
      { table := .coils, start := 0, count := 8, values := [1, 0, 1, 0, 0, 0, 0, 0] }
    let finished : Element := (read.element 3).withOutcome
      { status := .finished, response := some states, result := some result }
    lines.filter (fun line => OpensWith "WARN: " line) =
        ["WARN: Device is not connected", "WARN: Refuse to send invalid request.",
          "WARN: Request for slave 3 was refused by the queue"] ∧
      lines.filter (fun line =>
          OpensWith "DEBUG: Ignoring update of already completed reply from slave " line) =
        List.replicate 5 "DEBUG: Ignoring update of already completed reply from slave 3" ∧
      lines.filter (fun line => OpensWith "DEBUG: Invalid response for function code " line) =
        ["DEBUG: Invalid response for function code 0x01: " ++
          "Byte count 2 doesn't match the 1 bytes available"] ∧
      ∃ m ∈ moments, m.step.target? = some 0 ∧ m.before.queue[0]? = some finished ∧
        m.before.tellings m.step =
          [.setResponse states, .setResult result, .setFinished true].map
            (Telling.mk finished.reply) ∧
        m.after.queue[0]? = some finished := by
  intro read states steps moments lines result finished
  have hwarned : moments.filterMap Moment.refusal? =
      [.notConnected, .invalidRequest, .refused 3] := by decide +kernel
  have hlate : ((moments.flatMap fun m => m.before.tellings m.step).filter
      fun t => t.IsLate).map (fun t => t.reply.slave) = List.replicate 5 3 := by decide +kernel
  have hrejected : (moments.filterMap fun m => m.before.rejection? m.step) =
      [(1, .byteCountMismatch 2 1)] := by decide +kernel
  obtain ⟨hwarnings, hlates, hrejections, hmoments, -, hrun⟩ :=
    log_tells_what_went_wrong {} (steps.map fun st => ⟨st, none⟩)
  have hlines : lines = (moments.flatMap Moment.log).map Event.line :=
    congrArg (List.map Event.line) (hrun steps)
  rw [hlines]
  refine ⟨?_, ?_, ?_, ?_⟩
  · exact hwarnings.trans (congrArg (List.map Event.warningLine) hwarned)
  · have hwritten := congrArg (List.map Event.lateLine) hlate
    rw [List.map_map] at hwritten
    exact hlates.trans hwritten
  · exact hrejections.trans (congrArg (List.map Event.rejectionLine) hrejected)
  · let m : Moment := ⟨({} : Session).after (steps.take 6), .complete 0 states⟩
    have hmember : m ∈ moments := List.mem_of_getElem? (i := 6) rfl
    have hfound : m.before.queue[0]? = some finished := rfl
    obtain ⟨-, htold, -⟩ := hmoments m hmember
    obtain ⟨htellings, hafter⟩ := htold 0 finished rfl hfound
    exact ⟨m, hmember, rfl, hfound, htellings.trans rfl, hafter.trans rfl⟩

end Session

end Modbus
