import Modbus.Proofs.Elements

/-!
# Sending

A command is sent or it is not, and in neither case is anything done by halves.
`Session.sending_is_all_or_nothing` says which of the two happens, by the first of three conditions
that fails: the connection is up, the request is valid, the queue takes it. A command that is not
sent leaves its reason as the last failure of the session and all else as it was. One that is sent
adds its element behind the others, and all else is as it was, the last failure included.

So whatever a command has put into the queue can be written: `Request.IsValid.exists_bytes` gives
its bytes, and the element keeps its request for the rest of the run.
-/

namespace Modbus

/-! ## The bytes of valid requests -/

/-- A valid request is written as its code and its payload, from which it can be read again. -/
theorem Request.IsValid.exists_bytes {q : Request} (h : q.IsValid) :
    ∃ code data, q.toBytes = .ok (code :: data) ∧ 1 ≤ code.toNat ∧ code.toNat ≤ 127 ∧
      (code :: data).length ≤ 253 ∧ ofBytes (code :: data) = .ok q := by
  have hbytes := toBytes_of_isValid h
  obtain ⟨hpos, hlow, -, hsize⟩ := h
  have hmin : 0 < q.code.toNat := UInt8.lt_iff_toNat_lt.mp hpos
  have hmax : q.code.toNat < 128 := UInt8.lt_iff_toNat_lt.mp hlow
  have hlength : q.data.length ≤ 252 := hsize
  refine ⟨q.code, q.data, hbytes, hmin, by omega, ?_, rfl⟩
  rw [List.length_cons]
  omega

/-! ## Elements for commands -/

/-- The element is for the command and the server `slave`: it holds the request that was asked for
and the unit that the response is to be decoded into, and nothing is known of the reply yet. A
request that is sent as it is has no such unit, and only its response is of interest. -/
structure Element.IsFor (e : Element) (c : Command) (slave : UInt8) : Prop where
  asks : match c with
    | .read u => e.request = u.readRequest ∧ e.unit = u ∧ e.reply.kind = .common
    | .write u => e.request = u.writeRequest ∧ e.unit = u ∧ e.reply.kind = .common
    | .exchange r w => e.request = r.exchangeRequest w ∧ e.unit = r ∧ e.reply.kind = .common
    | .raw q =>
      e.request = q ∧ e.unit = { table := .invalid, start := 0, count := 0, values := [] } ∧
        e.reply.kind = .raw
  slave_eq : e.reply.slave = slave
  outcome_eq : e.reply.outcome = { status := .pending, response := none, result := none }

theorem Command.isFor_element (c : Command) (slave : UInt8) : (c.element slave).IsFor c slave where
  asks := by cases c <;> exact ⟨rfl, rfl, rfl⟩
  slave_eq := rfl
  outcome_eq := rfl

/-! ## Outcomes of sending -/

namespace Session

variable {s : Session} {c : Command} {slave : UInt8}

/-- What the caller gets for a command: the new element, or the failure. -/
def sendOutcome (s : Session) (c : Command) (slave : UInt8) : Except Failure Element :=
  (s.send c slave).value.1.mapError SendError.failure

/-- The first condition that fails decides. -/
theorem sendOutcome_eq (s : Session) (c : Command) (slave : UInt8) :
    s.sendOutcome c slave =
      if ¬ s.transport.IsUp then .error ⟨.connection, "Device not connected."⟩
      else if ¬ c.request.IsValid then .error ⟨.write, "Invalid Modbus request."⟩
      else if s.transport.refusing then .error ⟨.replyAborted, "Request could not be queued."⟩
      else .ok (c.element slave) := by
  rw [sendOutcome, value_send, obstacle?]
  by_cases hup : s.transport.IsUp
  · by_cases hvalid : c.request.IsValid
    · by_cases hrefusing : s.transport.refusing = true <;> simp [hup, hvalid, hrefusing] <;> rfl
    · simp [hup, hvalid]
      rfl
  · simp [hup]
    rfl

/-- There are three kinds of failure, and each has its condition. -/
theorem sendOutcome_eq_error_iff {kind : FailureKind} :
    (∃ message, s.sendOutcome c slave = .error ⟨kind, message⟩) ↔
      .connection = kind ∧ ¬ s.transport.IsUp ∨
      .write = kind ∧ s.transport.IsUp ∧ ¬ c.request.IsValid ∨
      .replyAborted = kind ∧ s.transport.IsUp ∧ c.request.IsValid ∧
        s.transport.refusing = true := by
  rw [sendOutcome_eq]
  by_cases hup : s.transport.IsUp
  · by_cases hvalid : c.request.IsValid
    · by_cases hrefusing : s.transport.refusing = true <;> simp [hup, hvalid, hrefusing]
    · simp [hup, hvalid]
  · simp [hup]

theorem sendOutcome_eq_ok_iff :
    (∃ e, s.sendOutcome c slave = .ok e) ↔ s.CanSend c.request := by
  rw [sendOutcome_eq, CanSend]
  by_cases hup : s.transport.IsUp
  · by_cases hvalid : c.request.IsValid
    · by_cases hrefusing : s.transport.refusing = true <;> simp [hup, hvalid, hrefusing]
    · simp [hup, hvalid]
  · simp [hup]

/-- What a command that is sent or not sent does to the session. -/
theorem next_send (s : Session) (c : Command) (slave : UInt8) :
    (∃ reason : SendError, s.sendOutcome c slave = .error reason.failure ∧
      s.next (.send c slave) = { s with lastError := some reason }) ∨
    (s.CanSend c.request ∧ s.sendOutcome c slave = .ok (c.element slave) ∧
      s.next (.send c slave) = { s with transport.queue := s.queue ++ [c.element slave] }) := by
  have hnext : s.next (.send c slave) = (s.send c slave).value.2 := (s.value_step_snd _).symm
  have hvalue := s.value_send c slave
  rw [hnext, sendOutcome]
  cases hobstacle : s.obstacle? c.request slave with
  | some reason =>
    simp only [hobstacle] at hvalue
    rw [hvalue]
    exact .inl ⟨reason, rfl, rfl⟩
  | none =>
    simp only [hobstacle] at hvalue
    rw [hvalue]
    exact .inr ⟨obstacle?_eq_none_iff.mp hobstacle, rfl, rfl⟩

/-- A command is sent if the connection is open and connected, the request valid, and the queue
takes it; else the first of these that fails is the failure that the caller gets. -/
theorem sending_is_all_or_nothing (s : Session) (c : Command) (slave : UInt8) :
    let up := s.transport.isOpen = true ∧ s.transport.state = .connected
    let refused := s.transport.enqueue? (c.element slave) = none
    let result := s.sendOutcome c slave
    let t := (s.step (.send c slave)).value.2
    ((∃ message, result = .error ⟨.connection, message⟩) ↔ ¬ up) ∧
    ((∃ message, result = .error ⟨.write, message⟩) ↔ up ∧ ¬ c.request.IsValid) ∧
    ((∃ message, result = .error ⟨.replyAborted, message⟩) ↔
      up ∧ c.request.IsValid ∧ refused) ∧
    ((∃ e, result = .ok e) ↔ up ∧ c.request.IsValid ∧ ¬ refused) ∧
    (∀ f, result = .error f →
      t.queue = s.queue ∧ t.failure = f ∧ t = { s with lastError := t.lastError }) ∧
    (∀ e, result = .ok e →
      e.IsFor c slave ∧ t = { s with transport.queue := s.queue ++ [e] } ∧ e.request.IsValid ∧
      (∃ code data, e.request.toBytes = .ok (code :: data) ∧ 1 ≤ code.toNat ∧ code.toNat ≤ 127 ∧
        (code :: data).length ≤ 253 ∧ Request.ofBytes (code :: data) = .ok e.request) ∧
      ∀ rest, ∃ outcome, (t.after rest).queue[s.queue.length]? = some (e.withOutcome outcome)) := by
  intro up refused result t
  have hup : up ↔ s.transport.IsUp := Iff.rfl
  have hrefused : refused ↔ s.transport.refusing = true := by
    simp only [refused, Transport.enqueue?]
    cases s.transport.refusing <;> simp
  have ht : t = s.next (.send c slave) := s.value_step_snd _
  rw [hrefused]
  refine ⟨?_, ?_, ?_, ?_, fun f hf => ?_, fun e he => ?_⟩
  · exact sendOutcome_eq_error_iff.trans (by simp [hup])
  · exact sendOutcome_eq_error_iff.trans (by simp [hup])
  · exact sendOutcome_eq_error_iff.trans (by simp [hup])
  · exact sendOutcome_eq_ok_iff.trans (by simp [CanSend, hup])
  · rw [ht]
    rcases s.next_send c slave with ⟨reason, hresult, hnext⟩ | ⟨-, hresult, -⟩
    · rw [hnext]
      cases hresult.symm.trans hf
      exact ⟨rfl, rfl, rfl⟩
    · cases hresult.symm.trans hf
  · rw [ht]
    rcases s.next_send c slave with ⟨reason, hresult, -⟩ | ⟨hsend, hresult, hnext⟩
    · cases hresult.symm.trans he
    · cases hresult.symm.trans he
      have hplace : (s.next (.send c slave)).queue[s.queue.length]? = some (c.element slave) := by
        rw [hnext]
        exact List.getElem?_concat_length
      exact ⟨c.isFor_element slave, hnext, hsend.2.1, hsend.2.1.exists_bytes,
        getElem?_queue_after hplace⟩

/-- The queue takes a read of coils and then refuses a write. The write fails and leaves no trace
but its failure, and the read stays in the queue with a request that can be written. -/
theorem refused_write_leaves_the_read :
    let read : Command := .read (.zeros .coils 0 8)
    let write : Command := .write (.zeros .holdingRegisters 3 1)
    let refusal : Failure := ⟨.replyAborted, "Request could not be queued."⟩
    let s := (({} : Session).step (.send read 1)).value.2
    let u := s.next (.changeTransport { refusing := some true })
    let t := (u.step (.send write 2)).value.2
    (∃ outcome, t.queue[0]? = some ((read.element 1).withOutcome outcome)) ∧
      (∃ code data, read.request.toBytes = .ok (code :: data) ∧
        Request.ofBytes (code :: data) = .ok read.request) ∧
      t.queue = u.queue ∧ t.queue = [read.element 1] ∧ t.failure = refusal := by
  intro read write refusal s u t
  obtain ⟨-, -, -, -, -, hsent⟩ := sending_is_all_or_nothing {} read 1
  obtain ⟨-, -, -, ⟨code, data, hbytes, -, -, -, hback⟩, hstays⟩ := hsent (read.element 1) rfl
  obtain ⟨-, -, -, -, hfailed, -⟩ := sending_is_all_or_nothing u write 2
  obtain ⟨hqueue, hfailure, -⟩ := hfailed refusal rfl
  have hlater := hstays [.changeTransport { refusing := some true }, .send write 2]
  exact ⟨hlater, ⟨code, data, hbytes, hback⟩, hqueue, rfl, hfailure⟩

end Session

end Modbus
