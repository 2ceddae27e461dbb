import Modbus.Proofs.Completion
import Modbus.Session.Step

/-!
# What a step does

`Session.next` says field by field what becomes of a session in a step. Of the queue it is
`Session.queueAfter` that says so: a request that is sent or handed over adds an element at the end,
a step about an element replaces its reply, and all other steps leave the queue alone.
`Session.value_step_snd` proves that this is what happens, so that facts about runs need not look
into `Session.step` again.
-/

namespace Modbus

/-! ## Sending -/

namespace Session

/-- What stands in the way of a request to the server `slave`, if anything does: the first reason
that applies. -/
def obstacle? (s : Session) (q : Request) (slave : UInt8) : Option SendError :=
  if ¬ s.transport.IsUp then some .notConnected
  else if ¬ q.IsValid then some .invalidRequest
  else if s.transport.refusing then some (.refused slave)
  else none

/-- A request is sent when the connection is up, the request valid and the queue willing. -/
def CanSend (s : Session) (q : Request) : Prop :=
  s.transport.IsUp ∧ q.IsValid ∧ s.transport.refusing = false

instance (s : Session) (q : Request) : Decidable (s.CanSend q) :=
  inferInstanceAs (Decidable (_ ∧ _ ∧ _))

theorem obstacle?_eq_none_iff {s : Session} {q : Request} {slave : UInt8} :
    s.obstacle? q slave = none ↔ s.CanSend q := by
  unfold obstacle? CanSend
  by_cases hup : s.transport.IsUp <;> by_cases hvalid : q.IsValid <;> simp [hup, hvalid]

/-- The element is handed over unless something stands in the way. -/
theorem handOver_eq (s : Session) (e : Element) :
    s.handOver e =
      match s.obstacle? e.request e.reply.slave with
      | some reason => .error reason
      | none => .ok { s.transport with queue := s.queue ++ [e] } := by
  unfold handOver obstacle? Transport.enqueue?
  by_cases hup : s.transport.IsUp <;> by_cases hvalid : e.request.IsValid <;>
    by_cases hrefusing : s.transport.refusing = true <;> simp [hup, hvalid, hrefusing, queue]

theorem value_send (s : Session) (c : Command) (slave : UInt8) :
    (s.send c slave).value =
      match s.obstacle? c.request slave with
      | some reason => (.error reason, { s with lastError := some reason })
      | none =>
        (.ok (c.element slave), { s with transport.queue := s.queue ++ [c.element slave] }) := by
  have hover := s.handOver_eq (c.element slave)
  have hobstacle : s.obstacle? (c.element slave).request (c.element slave).reply.slave =
      s.obstacle? c.request slave := rfl
  rw [hobstacle] at hover
  unfold send
  cases h : s.obstacle? c.request slave with
  | some reason =>
    simp only [h] at hover
    rw [hover]
    rfl
  | none =>
    simp only [h] at hover
    rw [hover]
    rfl

theorem value_send_of_canSend {s : Session} {c : Command} (h : s.CanSend c.request)
    (slave : UInt8) :
    (s.send c slave).value =
      (.ok (c.element slave), { s with transport.queue := s.queue ++ [c.element slave] }) := by
  rw [value_send, obstacle?_eq_none_iff.mpr h]

theorem exists_value_send_of_not_canSend {s : Session} {c : Command} (h : ¬ s.CanSend c.request)
    (slave : UInt8) :
    ∃ reason, (s.send c slave).value = (.error reason, { s with lastError := some reason }) := by
  have hobstacle : s.obstacle? c.request slave ≠ none := mt obstacle?_eq_none_iff.mp h
  obtain ⟨reason, hreason⟩ := Option.ne_none_iff_exists'.mp hobstacle
  exact ⟨reason, by rw [value_send, hreason]⟩

end Session

/-! ## The queue after a step -/

/-- The reply after a wait, which is as it was if the wait would never end. -/
def Reply.waited (r : Reply) (limit : Option Nat) (schedule : List TimedAction) : Reply :=
  match r.wait limit schedule with
  | some ended => ended.value.2
  | none => r

namespace Session

/-- The queue with the reply of one element replaced. -/
def withReply (s : Session) (index : Nat) (f : Element → Reply) : List Element :=
  s.queue.modify index fun e => { e with reply := f e }

/-- The queue after a step. -/
def queueAfter (s : Session) : Step → List Element
  | .send c slave => if s.CanSend c.request then s.queue ++ [c.element slave] else s.queue
  | .enqueue request slave unit kind =>
    if s.transport.refusing then s.queue else s.queue ++ [.pending request slave unit kind]
  | .complete index r => s.withReply index fun e => (e.complete s.extension r).value.1
  | .wait index patience schedule =>
    s.withReply index fun e => e.reply.waited (s.limit? patience) schedule
  | .act index a => s.withReply index fun e => (e.reply.apply a).value
  | .process _ _ | .inspect _ | .setTimeout _ | .changeTransport _ => s.queue

/-- Only what is put in the place of the reply that is there counts. -/
theorem withReply_congr {s : Session} {index : Nat} {e : Element} (h : s.queue[index]? = some e)
    {f g : Element → Reply} (hfg : f e = g e) : s.withReply index f = s.withReply index g := by
  apply List.ext_getElem?
  intro i
  rw [withReply, withReply, List.getElem?_modify, List.getElem?_modify]
  by_cases hi : index = i
  · subst hi
    simp [h, hfg]
  · simp [hi]

theorem withReply_reply (s : Session) (index : Nat) : s.withReply index Element.reply = s.queue :=
  List.modify_id index s.queue

theorem withReply_of_none {s : Session} {index : Nat} (h : s.queue[index]? = none)
    (f : Element → Reply) : s.withReply index f = s.queue :=
  List.modify_eq_self (List.getElem?_eq_none_iff.mp h)

theorem forall_mem_withReply {s : Session} {index : Nat} {f : Element → Reply}
    {p : Element → Prop} (h : ∀ e ∈ s.queue, p e)
    (hf : ∀ e, s.queue[index]? = some e → p { e with reply := f e }) :
    ∀ e ∈ s.withReply index f, p e := by
  intro e he
  obtain ⟨i, hi⟩ := List.mem_iff_getElem?.mp he
  rw [withReply, List.getElem?_modify] at hi
  obtain ⟨e', he', rfl⟩ := Option.map_eq_some_iff.mp hi
  by_cases hindex : index = i
  · subst hindex
    simpa using hf e' he'
  · simpa [hindex] using h e' (List.mem_iff_getElem?.mpr ⟨i, he'⟩)

/-! ## The session after a step -/

/-- The connection after a step, apart from its queue. -/
def connectionAfter (s : Session) : Step → Transport
  | .changeTransport change => s.transport.change change
  | .send _ _ | .enqueue _ _ _ _ | .complete _ _ | .process _ _ | .wait _ _ _ | .act _ _
  | .inspect _ | .setTimeout _ => s.transport

/-- The response timeout that a step sets, if it sets one. -/
def Step.timeout? : Step → Option Int
  | setTimeout ms => some ms
  | send _ _ | enqueue _ _ _ _ | complete _ _ | process _ _ | wait _ _ _ | act _ _ | inspect _
  | changeTransport _ => none

/-- What stands in the way of a step that sends a command, if anything does. -/
def obstacleTo? (s : Session) : Step → Option SendError
  | .send c slave => s.obstacle? c.request slave
  | .enqueue _ _ _ _ | .complete _ _ | .process _ _ | .wait _ _ _ | .act _ _ | .inspect _
  | .setTimeout _ | .changeTransport _ => none

/-- How many times a step calls the extension. -/
def calls (s : Session) : Step → Nat
  | .complete index r => s.queue[index]?.elim 0 fun e => (e.complete s.extension r).value.2
  | .process r unit => (r.process s.extension unit).value.calls
  | .send _ _ | .enqueue _ _ _ _ | .wait _ _ _ | .act _ _ | .inspect _ | .setTimeout _
  | .changeTransport _ => 0

/-- The session after a step. -/
def next (s : Session) (st : Step) : Session where
  transport := { s.connectionAfter st with queue := s.queueAfter st }
  timeout := st.timeout?.getD s.timeout
  lastError := (s.obstacleTo? st).or s.lastError
  extension := s.extension
  extensionCalls := s.extensionCalls + s.calls st

theorem setReply_eq {s : Session} {index : Nat} {e : Element} (h : s.queue[index]? = some e)
    (f : Element → Reply) :
    s.setReply index (f e) = { s with transport.queue := s.withReply index f } := by
  have hqueue : s.withReply index (fun _ => f e) = s.withReply index f := withReply_congr h rfl
  rw [← hqueue]
  rfl

/-- A step about an element does what it does to the element's reply. -/
theorem value_withElement_snd {s t : Session} {index : Nat}
    {g : Element → Logged (Option Answer × Session)}
    (hnone : s.queue[index]? = none → s = t)
    (hg : ∀ e, s.queue[index]? = some e → (g e).value.2 = t) :
    (s.withElement index g).value.2 = t := by
  unfold withElement
  cases he : s.queue[index]? with
  | some e => exact hg e he
  | none => exact hnone he

theorem value_step_snd (s : Session) (st : Step) : (s.step st).value.2 = s.next st := by
  cases st with
  | send c slave =>
    rw [step, Logged.value_bind, value_send]
    cases h : s.obstacle? c.request slave with
    | some reason =>
      have hsend : ¬ s.CanSend c.request := by
        rw [← obstacle?_eq_none_iff, h]
        exact nofun
      simp only [next, obstacleTo?, h, queueAfter, if_neg hsend]
      rfl
    | none =>
      have hsend : s.CanSend c.request := obstacle?_eq_none_iff.mp h
      simp only [next, obstacleTo?, h, queueAfter, if_pos hsend]
      rfl
  | enqueue request slave unit kind =>
    rw [step, enqueue, next, queueAfter, Transport.enqueue?]
    by_cases hrefusing : s.transport.refusing = true
    · rw [if_pos hrefusing, if_pos hrefusing]
      rfl
    · rw [if_neg hrefusing, if_neg hrefusing]
      rfl
  | complete index r =>
    refine value_withElement_snd (fun hnone => ?_) fun e he => ?_
    · rw [next, queueAfter, withReply_of_none hnone, calls, hnone]
      rfl
    · have hreply := setReply_eq he fun e => (e.complete s.extension r).value.1
      rw [next, calls, he]
      exact congrArg (fun t : Session =>
        { t with extensionCalls := s.extensionCalls + (e.complete s.extension r).value.2 }) hreply
  | wait index patience schedule =>
    refine value_withElement_snd (fun hnone => ?_) fun e he => ?_
    · rw [next, queueAfter, withReply_of_none hnone]
      rfl
    · have hreply := setReply_eq he fun e => e.reply.waited (s.limit? patience) schedule
      have hself := setReply_eq he Element.reply
      rw [next, queueAfter]
      unfold Reply.waited at hreply
      cases hwait : e.reply.wait (s.limit? patience) schedule with
      | some ended =>
        simp only [hwait] at hreply
        exact hreply
      | none =>
        simp only [hwait] at hreply
        rw [hself, withReply_reply] at hreply
        exact hreply
  | act index a =>
    refine value_withElement_snd (fun hnone => ?_) fun e he => ?_
    · rw [next, queueAfter, withReply_of_none hnone]
      rfl
    · exact setReply_eq he fun e => (e.reply.apply a).value
  | inspect index => exact value_withElement_snd (fun _ => rfl) fun e he => rfl
  | setTimeout ms =>
    rw [step, setTimeout]
    by_cases hsame : s.timeout = ms
    · rw [if_pos hsame, next, ← hsame]
      rfl
    · rw [if_neg hsame]
      rfl
  | process r unit => rfl
  | changeTransport change => rfl

theorem after_cons_next (s : Session) (st : Step) (steps : List Step) :
    s.after (st :: steps) = (s.next st).after steps := by
  rw [after_cons, value_step_snd]

theorem queue_step (s : Session) (st : Step) : (s.step st).value.2.queue = s.queueAfter st := by
  rw [value_step_snd]
  rfl

theorem extension_step (s : Session) (st : Step) :
    (s.step st).value.2.extension = s.extension := by
  rw [value_step_snd]
  rfl

theorem extension_after (s : Session) (steps : List Step) :
    (s.after steps).extension = s.extension := by
  induction steps generalizing s with
  | nil => rfl
  | cons st steps ih => rw [after_cons, ih, extension_step]

end Session

end Modbus
