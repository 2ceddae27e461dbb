import Modbus.Proofs.Grammar
import Modbus.Proofs.Payloads
import Modbus.Proofs.Requests
import Modbus.Proofs.Steps

/-!
# From a request to what its response delivers

A command is sent, the server does what the request asks for and says so, and the reply is
completed with its response. `Session.reading_returns_the_values_of_the_server` and
`Session.writing_is_acknowledged_as_sent` say what the caller then finds in the reply. In both the
response is told from its bytes, without the code that decodes it: what has been read is anything
that `Table.Carries` the values of the server, and what has been written is told back in the bytes
of the request.
-/

namespace Modbus

/-! ## Delivery -/

/-- The reply is finished without a failure, and holds a response and the unit it delivers. -/
def Reply.HasDelivered (reply : Reply) (r : Response) (u : DataUnit) : Prop :=
  reply.outcome = { status := .finished, response := some r, result := some u } ∧
    reply.failure = ⟨.noError, ""⟩

namespace Element

variable {e : Element} {a : Access} {r : Response} {content : Content}

/-- An answer to a data access leads a pending reply to its content, recorded in the element's
unit. -/
theorem outcomeOf_of_decode (hkind : e.reply.kind = .common) (extension : Option Extension)
    (h : a.decode r = .ok content) :
    e.outcomeOf extension r =
      { status := .finished, response := some r, result := some (content.writeTo e.unit) } := by
  have hraw := (Access.decode_eq_ok_iff.mp h).1
  have hexc : ¬ r.IsException := Response.not_isException_of_rawCode hraw
  have haccess : Access.ofByte? r.code = some a := by
    rw [Response.code_eq_rawCode hexc, hraw, Access.ofByte?_toByte]
  have hdecode : a.decodeInto r (some e.unit) = (.ok (), some (content.writeTo e.unit)) := by
    rw [Access.decodeInto, h]
    rfl
  have hprocess := Response.value_process_of_access haccess extension (some e.unit)
  rw [hdecode] at hprocess
  rw [outcomeOf, if_neg hexc, if_neg (by rw [hkind]; decide), hprocess]
  rfl

/-- An answer to a data access delivers its content, recorded in the element's unit. -/
theorem hasDelivered_of_decode (hkind : e.reply.kind = .common) (hpending : ¬ e.reply.IsComplete)
    (extension : Option Extension) (h : a.decode r = .ok content) :
    (e.complete extension r).value.1.HasDelivered r (content.writeTo e.unit) := by
  rw [value_complete_fst, applyAll_completion extension r hpending,
    outcomeOf_of_decode hkind extension h]
  exact ⟨rfl, rfl⟩

end Element

namespace Session

variable {s : Session} {c : Command} {slave : UInt8} {e : Element}

theorem canSend_of_send (h : (s.send c slave).value.1 = .ok e) :
    s.CanSend c.request ∧ e = c.element slave := by
  by_cases hsend : s.CanSend c.request
  · rw [value_send_of_canSend hsend] at h
    exact ⟨hsend, (Except.ok.inj h).symm⟩
  · obtain ⟨reason, hvalue⟩ := exists_value_send_of_not_canSend hsend slave
    rw [hvalue] at h
    cases h

theorem queue_after_send_complete (h : s.CanSend c.request) (slave : UInt8) (r : Response) :
    (s.after [.send c slave, .complete s.queue.length r]).queue =
      s.queue ++ [{ c.element slave with
        reply := ((c.element slave).complete s.extension r).value.1 }] := by
  have hqueue : (s.step (.send c slave)).value.2.queue = s.queue ++ [c.element slave] := by
    rw [queue_step, queueAfter, if_pos h]
  rw [after_cons, after_cons, after_nil, queue_step, queueAfter, extension_step, withReply, hqueue,
    List.modify_eq_take_cons_drop (by simp)]
  simp

end Session

/-! ## Reading -/

/-- What a server answers when it has read a range: the number of the bytes that carry the values,
and those bytes. -/
def Response.reading (code : UInt8) (bytes : List UInt8) : Response :=
  ⟨code, UInt8.ofNat bytes.length :: bytes⟩

/-- The command reads the unit, and the response to it has the function code. -/
inductive Command.Reads : Command → DataUnit → UInt8 → Prop
  | read (u : DataUnit) : Reads (.read u) u u.readRequest.code
  | exchange (u write : DataUnit) : Reads (.exchange u write) u 23

namespace Table

variable {t : Table} {values : List UInt16} {bytes : List UInt8}

/-- As many values as one request can read leave room in the payload for the number of their
bytes. -/
theorem Carries.length_le (h : t.Carries values bytes) (hmax : values.length ≤ t.readLimit) :
    bytes.length ≤ 250 := by
  unfold readLimit at hmax
  by_cases ht : t.isBit
  · have hlength := ((carries_bits_iff ht).mp h).1
    rw [if_pos ht] at hmax
    omega
  · have hlength := ((carries_registers_iff ht).mp h).1
    rw [if_neg ht] at hmax
    omega

end Table

namespace Access

/-- The data accesses that are answered with values of their table. -/
def reads : Access → Bool
  | readCoils | readDiscreteInputs | readHoldingRegisters | readInputRegisters
  | readWriteMultipleRegisters => true
  | writeSingleCoil | writeSingleRegister | writeMultipleCoils | writeMultipleRegisters => false

theorem reads_of_readAccess? {t : Table} {a : Access} (h : t.readAccess? = some a) : a.reads := by
  cases t <;> cases h <;> rfl

variable {a : Access} {values : List UInt16} {bytes : List UInt8}

/-- Bytes that carry values say, behind their number, what the values are. -/
theorem exists_conveys_of_carries (ha : a.reads) (h : a.table.Carries values bytes)
    (hpos : 0 < values.length) (hmax : values.length ≤ a.table.readLimit) :
    ∃ content, a.Conveys (UInt8.ofNat bytes.length :: bytes) content ∧
      ∀ u : DataUnit, u.table = a.table → values.length = u.count.toNat →
        content.writeTo u = { u with values } := by
  have hle := h.length_le hmax
  have hcount : bytes.length = (UInt8.ofNat bytes.length).toNat :=
    (UInt8.toNat_ofNat_of_lt' (Nat.lt_of_le_of_lt hle (by decide))).symm
  cases a with
  | readCoils | readDiscreteInputs =>
    have hlength := ((Table.carries_bits_iff rfl).mp h).1
    have hmin : 1 ≤ (UInt8.ofNat bytes.length).toNat := by omega
    refine ⟨.bits bytes, ⟨_, bytes, rfl, hcount, hmin, rfl⟩, fun u _ hu => ?_⟩
    rw [Content.writeTo, ← hu, Table.unpack_coils_of_carries rfl h]
  | readHoldingRegisters | readInputRegisters | readWriteMultipleRegisters =>
    have hlength := ((Table.carries_registers_iff (by decide)).mp h).1
    have heven : (UInt8.ofNat bytes.length).toNat % 2 = 0 := by omega
    have hmin : 2 ≤ (UInt8.ofNat bytes.length).toNat := by omega
    refine ⟨_, ⟨_, bytes, rfl, hcount, heven, hmin, rfl⟩, fun u htable hu => ?_⟩
    rw [Content.writeTo, Table.unpack_registers_of_carries (by decide) h, hu, UInt16.ofNat_toNat,
      ← htable]
  | writeSingleCoil | writeSingleRegister | writeMultipleCoils | writeMultipleRegisters =>
    cases ha

end Access

namespace Command

/-- What a valid request to read was built from. -/
theorem Reads.exists_access {c : Command} {u : DataUnit} {code : UInt8} (h : c.Reads u code)
    (hvalid : c.request.IsValid) :
    ∃ a : Access, a.reads ∧ a.table = u.table ∧ a.toByte = code ∧ c.request.code = code ∧
      u.IsValid ∧ u.count.toNat ≤ u.table.readLimit := by
  cases h with
  | read =>
    obtain ⟨a, ha, hunit, hmax, hrequest⟩ := DataUnit.readRequest_of_isValid hvalid
    exact ⟨a, Access.reads_of_readAccess? ha, Table.table_of_readAccess? ha, by rw [hrequest],
      rfl, hunit, hmax⟩
  | exchange write =>
    obtain ⟨htable, hunit, hmax, hcode⟩ := DataUnit.exchangeRequest_of_isValid hvalid
    refine ⟨.readWriteMultipleRegisters, rfl, htable.symm, rfl, hcode, hunit, ?_⟩
    rw [htable]
    exact hmax

theorem Reads.kind_eq {c : Command} {u : DataUnit} {code : UInt8} (h : c.Reads u code) :
    c.kind = .common := by
  cases h <;> rfl

theorem Reads.unit_eq {c : Command} {u : DataUnit} {code : UInt8} (h : c.Reads u code) :
    c.unit = u := by
  cases h <;> rfl

end Command

/-- Whoever reads a unit gets it back with the values that the server has put into the bytes of its
answer, whatever values it had before and whatever fills the last byte. So does whoever writes
another unit at the same time. -/
theorem Session.reading_returns_the_values_of_the_server {s : Session} {c : Command}
    {slave : UInt8} {e : Element} {u : DataUnit} {code : UInt8} {values : List UInt16}
    {bytes : List UInt8} (hreads : c.Reads u code) (hsent : (s.send c slave).value.1 = .ok e)
    (hlength : values.length = u.count.toNat) (hbytes : u.table.Carries values bytes) :
    e.request.code = code ∧
      ∃ reply, (s.after [.send c slave, .complete s.queue.length (.reading code bytes)]).queue =
          s.queue ++ [{ e with reply }] ∧
        reply.HasDelivered (.reading code bytes) { u with values } := by
  obtain ⟨hsend, rfl⟩ := canSend_of_send hsent
  obtain ⟨a, ha, htable, rfl, hcode, hunit, hmax⟩ := hreads.exists_access hsend.2.1
  have hpos := DataUnit.count_pos_of_isValid hunit
  rw [← htable] at hmax hbytes
  obtain ⟨content, hconveys, hcontent⟩ :=
    Access.exists_conveys_of_carries ha hbytes (hlength ▸ hpos) (hlength ▸ hmax)
  have hdata : (Response.reading a.toByte bytes).data.length ≤ maxPayload := by
    have hle := hbytes.length_le (hlength ▸ hmax)
    rw [Response.reading, List.length_cons, maxPayload]
    omega
  have hdecode : a.decode (.reading a.toByte bytes) = .ok content :=
    Access.decode_eq_ok_iff.mpr ⟨rfl, hdata, hconveys⟩
  refine ⟨hcode, _, queue_after_send_complete hsend slave _, ?_⟩
  have hdelivered := Element.hasDelivered_of_decode (e := c.element slave) hreads.kind_eq
    (fun h => h rfl) s.extension hdecode
  have hunit_eq : (c.element slave).unit = u := hreads.unit_eq
  rw [hunit_eq, hcontent u htable.symm hlength] at hdelivered
  exact hdelivered

/-- Three coils are read into a unit that has four values, and the unused bits of the answer are
set. Two registers are read on their own and together with writing a third. -/
theorem Session.reading_ignores_the_unused_bits :
    let coils : DataUnit := { table := .coils, start := 5, count := 3, values := [9, 9, 9, 9] }
    let inputs : DataUnit := { table := .inputRegisters, start := 5, count := 2, values := [] }
    let registers : DataUnit := { table := .holdingRegisters, start := 5, count := 2, values := [] }
    let written : DataUnit := { table := .holdingRegisters, start := 9, count := 1, values := [4] }
    let delivers (c : Command) (r : Response) (u : DataUnit) : Prop :=
      (({} : Session).send c 1).value.1 = .ok (c.element 1) ∧
        ∃ reply, (({} : Session).after [.send c 1, .complete 0 r]).queue =
            [{ c.element 1 with reply }] ∧ reply.HasDelivered r u
    Table.coils.Carries [1, 0, 1] [0xFD] ∧
      Table.inputRegisters.Carries [0x1234, 255] [0x12, 0x34, 0, 0xFF] ∧
      Table.holdingRegisters.Carries [0x1234, 255] [0x12, 0x34, 0, 0xFF] ∧
      delivers (.read coils) (.reading 1 [0xFD]) { coils with values := [1, 0, 1] } ∧
      delivers (.read inputs) (.reading 4 [0x12, 0x34, 0, 0xFF])
        { inputs with values := [0x1234, 255] } ∧
      delivers (.exchange registers written) (.reading 23 [0x12, 0x34, 0, 0xFF])
        { registers with values := [0x1234, 255] } := by
  intro coils inputs registers written delivers
  have hcoils : Table.coils.Carries [1, 0, 1] [0xFD] := by
    refine (Table.carries_bits_iff rfl).mpr ⟨rfl, fun i value h => ?_⟩
    match i, h with
    | 0, rfl => exact ⟨0xFD, rfl, rfl⟩
    | 1, rfl => exact ⟨0xFD, rfl, rfl⟩
    | 2, rfl => exact ⟨0xFD, rfl, rfl⟩
  have hinputs : Table.inputRegisters.Carries [0x1234, 255] [0x12, 0x34, 0, 0xFF] :=
    Table.carries_pack_registers (by decide) [0x1234, 255]
  have hregisters : Table.holdingRegisters.Carries [0x1234, 255] [0x12, 0x34, 0, 0xFF] :=
    Table.carries_pack_registers (by decide) [0x1234, 255]
  exact ⟨hcoils, hinputs, hregisters,
    ⟨rfl, (reading_returns_the_values_of_the_server (.read coils) rfl rfl hcoils).2⟩,
    ⟨rfl, (reading_returns_the_values_of_the_server (.read inputs) rfl rfl hinputs).2⟩,
    ⟨rfl, (reading_returns_the_values_of_the_server (.exchange registers written) rfl rfl
      hregisters).2⟩⟩

/-! ## Writing -/

/-- What a server answers when it has done what a request to write asks for. It repeats the request,
but only the range if the values of many elements follow it. -/
def Request.acknowledgement (q : Request) : Response :=
  ⟨q.code, if q.code = 5 ∨ q.code = 6 then q.data else q.data.take 4⟩

namespace DataUnit

/-- The request writes the unit, told from its bytes. -/
inductive IsWrittenBy (u : DataUnit) : Request → Prop
  | coil (on : Bool) (htable : u.table = .coils) (hstates : u.coils? = some [on]) :
    IsWrittenBy u ⟨5, Word.bytes u.start ++ [if on then 0xFF else 0x00, 0x00]⟩
  | register (value : UInt16) (htable : u.table = .holdingRegisters)
      (hvalues : u.values = [value]) :
    IsWrittenBy u ⟨6, Word.bytes u.start ++ Word.bytes value⟩
  | coils (states : List Bool) (size : UInt8) (bytes : List UInt8) (htable : u.table = .coils)
      (hstates : u.coils? = some states) (hsize : size.toNat = bytes.length)
      (hbytes : u.table.Carries (states.map Bool.toUInt16) bytes) :
    IsWrittenBy u ⟨15, Word.bytes u.start ++ Word.bytes u.count ++ size :: bytes⟩
  | registers (size : UInt8) (bytes : List UInt8) (htable : u.table = .holdingRegisters)
      (hsize : size.toNat = bytes.length) (hbytes : u.table.Carries u.values bytes) :
    IsWrittenBy u ⟨16, Word.bytes u.start ++ Word.bytes u.count ++ size :: bytes⟩

/-- The values hold one for each element of the unit and say of it what the unit itself says:
registers have the same value, coils are in the same state. -/
structure IsTold (u : DataUnit) (values : List UInt16) : Prop where
  length_eq : values.length = u.count.toNat
  registers_eq (h : u.table = .holdingRegisters) : values = u.values.take u.count.toNat
  coils_eq (h : u.table = .coils) :
    ({ u with values } : DataUnit).coils? = some ((u.values.take u.count.toNat).map (· != 0))

variable {u : DataUnit}

theorem coils?_map_toUInt16 (htable : u.table.isBit) (states : List Bool) :
    ({ u with values := states.map Bool.toUInt16 } : DataUnit).coils? = some states := by
  have hstate (on : Bool) : (on.toUInt16 != 0) = on := by
    cases on <;> rfl
  rw [coils?, if_pos htable, List.map_map]
  simp [Function.comp_def, hstate]

theorem isTold_content (h : u.IsWritable) : u.IsTold u.content where
  length_eq := length_content h
  registers_eq _ := rfl
  coils_eq htable := by
    rw [coils?, htable]
    rfl

theorem resized_of_isWritable (h : u.IsWritable) : u.resized = { u with values := u.content } := by
  rw [resized, Values.resize_of_le h.2, content]

/-- The acknowledgement of a request that writes a unit tells what the request has written. -/
theorem WriteForm.exists_decode {q : Request} (hform : u.WriteForm q) (h : u.IsWritable) :
    ∃ (a : Access) (content : Content) (values : List UInt16),
      a.decode q.acknowledgement = .ok content ∧ content.writeTo u = { u with values } ∧
        u.IsTold values ∧ IsWrittenBy { u with values } q := by
  have hfits : 4 ≤ maxPayload := by decide
  have htold := isTold_content h
  cases hform with
  | coil value htable hcontent =>
    have hcount := count_eq_one h hcontent
    have hstates := coils?_map_toUInt16 (u := u) (by rw [htable]; rfl) [value != 0]
    refine ⟨.writeSingleCoil, .coil u.start (value != 0), [(value != 0).toUInt16], ?_, ?_, ?_, ?_⟩
    · exact Access.decode_eq_ok_iff.mpr ⟨rfl, hfits, u.start, value != 0, rfl, rfl⟩
    · rw [htable, hcount]
      rfl
    · refine ⟨by rw [hcount]; rfl, fun hregisters => ?_, fun _ => ?_⟩
      · rw [htable] at hregisters
        cases hregisters
      · rw [← content, hcontent]
        exact hstates
    · rw [singleWriteRequest, Datum.bytes_word_coil]
      exact .coil (value != 0) htable hstates
  | register value htable hcontent =>
    have hcount := count_eq_one h hcontent
    refine ⟨.writeSingleRegister, .register u.start value, [value], ?_, ?_, ?_, ?_⟩
    · exact Access.decode_eq_ok_iff.mpr ⟨rfl, hfits, u.start, value, rfl, rfl⟩
    · rw [htable, hcount]
      rfl
    · rw [← hcontent]
      exact htold
    · exact .register value htable rfl
  | coils htable hmin hmax =>
    have hsize : (Coils.pack u.content).length < 256 := by
      unfold coilWriteLimit at hmax
      rw [Coils.length_pack, Coils.byteCount]
      omega
    refine ⟨.writeMultipleCoils, .coilRange u.start u.count, u.content, ?_, ?_, htold, ?_⟩
    · exact Access.decode_eq_ok_iff.mpr ⟨rfl, hfits, u.start, u.count, rfl, rfl⟩
    · rw [Content.writeTo, ← htable]
      exact resized_of_isWritable h
    · exact .coils _ _ _ htable (htold.coils_eq htable) (UInt8.toNat_ofNat_of_lt' hsize)
        (Table.carries_pack_coils (by rw [htable]; rfl) u.content)
  | registers htable hmin hmax =>
    have hlength := htold.length_eq
    unfold registerWriteLimit at hmax
    have hsize : (Registers.pack u.content).length < 256 := by
      rw [Registers.length_pack]
      omega
    refine ⟨.writeMultipleRegisters, .registerRange u.start u.count, u.content, ?_, ?_, htold, ?_⟩
    · exact Access.decode_eq_ok_iff.mpr
        ⟨rfl, hfits, u.start, u.count, rfl, by omega, by unfold registerWriteLimit; omega, rfl⟩
    · rw [Content.writeTo, ← htable]
      exact resized_of_isWritable h
    · exact .registers _ _ htable (UInt8.toNat_ofNat_of_lt' hsize)
        (Table.carries_pack_registers (by rw [htable]; decide) u.content)

end DataUnit

/-- Whoever writes a unit is told back, once the server has acknowledged it, the range and the
content that went out: one value for each element, without those that the unit had past its
count. -/
theorem Session.writing_is_acknowledged_as_sent {s : Session} {slave : UInt8} {e : Element}
    {u : DataUnit} (hsent : (s.send (.write u) slave).value.1 = .ok e) :
    ∃ reply values,
      (s.after [.send (.write u) slave,
        .complete s.queue.length e.request.acknowledgement]).queue = s.queue ++ [{ e with reply }] ∧
      reply.HasDelivered e.request.acknowledgement { u with values } ∧
      u.IsTold values ∧ DataUnit.IsWrittenBy { u with values } e.request := by
  obtain ⟨hsend, rfl⟩ := canSend_of_send hsent
  obtain ⟨hwritable, hform⟩ := DataUnit.writeRequest_of_isValid hsend.2.1
  obtain ⟨a, content, values, hdecode, hcontent, htold, hwritten⟩ := hform.exists_decode hwritable
  refine ⟨_, values, queue_after_send_complete hsend slave _, ?_, htold, hwritten⟩
  rw [← hcontent]
  exact Element.hasDelivered_of_decode rfl (fun h => h rfl) s.extension hdecode

/-- Three coils are written from a unit that has four values, not all of them zeros and ones. -/
theorem Session.writing_leaves_out_the_fourth_coil :
    let u : DataUnit := { table := .coils, start := 5, count := 3, values := [0, 7, 1, 9] }
    let e : Element := Command.element (.write u) 1
    (({} : Session).send (.write u) 1).value.1 = .ok e ∧
      e.request = ⟨15, [0, 5, 0, 3, 1, 0b110]⟩ ∧
      ∃ reply values,
        (({} : Session).after [.send (.write u) 1, .complete 0 e.request.acknowledgement]).queue =
          [{ e with reply }] ∧
        reply.HasDelivered e.request.acknowledgement { u with values } ∧
        u.IsTold values ∧ DataUnit.IsWrittenBy { u with values } e.request := by
  intro u e
  have hsent : (({} : Session).send (.write u) 1).value.1 = .ok e := rfl
  exact ⟨hsent, by decide, writing_is_acknowledged_as_sent hsent⟩

end Modbus
