import Modbus.Proofs.Checked.Requests
import Modbus.Proofs.Grammar
import Modbus.Session.Complete

/-!
# Decoding responses with checks

The way of a response from its bytes to the reply, with a check before every step that could fail. A
`Decoder` can end in two ways without a result. It may find that the response is not as it should
be, which is its purpose, or one of its own steps may fail, which should never happen.

`Checked.no_operation_fails` says that it never does, neither here nor in building requests, and
that the checks make no difference to what comes out.
-/

namespace Modbus

namespace Checked

/-! ## Decoders -/

/-- A checked program that may also reject what it reads. -/
abbrev Decoder := ExceptT DecodeError Checked

namespace Decoder

variable {α β : Type}

/-- The decoder that comes to a given result, or rejects for a given reason. -/
def settle (x : Except DecodeError α) : Decoder α := ExceptT.mk (.ok x)

@[simp] theorem settle_ok_bind (x : α) (f : α → Decoder β) : settle (.ok x) >>= f = f x := rfl

@[simp] theorem lift_ok_bind (x : α) (f : α → Decoder β) :
    ((liftM (.ok x : Checked α) : Decoder α) >>= f) = f x := rfl

end Decoder

open Decoder

/-! ## Payloads -/

/-- The number of bytes that a payload opens with, which must be that of the bytes behind it, and
the place of the first of these. -/
def readByteCount (a : Access) (r : Response) : Decoder (Nat × Cursor) :=
  if r.data.length < a.code.responseMinimum then
    settle (.error (.tooShort a.code r.data.length a.code.responseMinimum))
  else do
    let (count, payload) ← readByte (.into r.data 0)
    let available ← sub r.data.length 1
    if available = count.toNat then settle (.ok (count.toNat, payload))
    else settle (.error (.byteCountMismatch count.toNat available))

/-- The two words of a payload that consists of nothing else. -/
def readTwoWords (a : Access) (r : Response) : Decoder (UInt16 × UInt16) :=
  if r.data.length ≠ a.code.responseMinimum then
    settle (.error (.wrongSize a.code r.data.length a.code.responseMinimum))
  else do
    let (first, payload) ← readWord (.into r.data 0)
    let (second, _) ← readWord payload
    settle (.ok (first, second))

variable {a : Access} {r : Response}

theorem readByteCount_eq (ha : 0 < a.code.responseMinimum) :
    readByteCount a r =
      settle ((a.countedBytes r.data).map fun bytes => (bytes.length, ⟨1, bytes⟩)) := by
  unfold readByteCount Access.countedBytes
  by_cases hshort : r.data.length < a.code.responseMinimum
  · rw [if_pos hshort, if_pos hshort]
    rfl
  · obtain ⟨count, rest, hdata⟩ := List.exists_cons_of_length_pos (l := r.data) (by omega)
    have hfirst : readByte (.into (count :: rest) 0) = .ok (count, ⟨1, rest⟩) := rfl
    have havailable : sub (count :: rest).length 1 = .ok rest.length := sub_eq_ok (by simp)
    rw [if_neg hshort, if_neg hshort, hdata]
    simp only [hfirst, havailable, lift_ok_bind]
    by_cases hcount : rest.length = count.toNat
    · rw [if_pos hcount, if_pos hcount, ← hcount]
      rfl
    · rw [if_neg hcount, if_neg hcount]
      rfl

theorem readTwoWords_eq (ha : a.code.responseMinimum = 4) :
    readTwoWords a r = settle (a.twoWords r.data) := by
  obtain ⟨rawCode, data⟩ := r
  unfold readTwoWords Access.twoWords
  by_cases hsize : data.length = 4
  · match data, hsize with
    | [_, _, _, _], _ =>
      rw [ha]
      rfl
  · rw [if_pos (by rwa [ha])]
    match data, hsize with
    | [], _ | [_], _ | [_, _], _ | [_, _, _], _ | _ :: _ :: _ :: _ :: _ :: _, _ => rfl
    | [_, _, _, _], hsize => exact absurd rfl hsize

/-! ## Decoding -/

/-- Decodes the states of bits, of which the payload carries as many as the unit asks for. -/
def decodeBits (a : Access) (r : Response) (unit : Option DataUnit) :
    Decoder (Option DataUnit) := do
  let _size ← readByteCount a r
  unit.mapM fun u => do
    let packed ← onwards r.data 1
    let values ← unpackCoils packed u.count.toNat
    settle (.ok { u with values })

/-- Decodes the values of registers. -/
def decodeRegisters (a : Access) (r : Response) (unit : Option DataUnit) :
    Decoder (Option DataUnit) := do
  let (size, payload) ← readByteCount a r
  if size % 2 ≠ 0 then settle (.error (.partialRegister size))
  else do
    let values ← readRegisters (size / 2) payload
    unit.mapM fun u => do
      let count ← word (size / 2)
      settle (.ok { u with table := a.table, count, values })

/-- Decodes the payload of a response to the access `a`. -/
def content (a : Access) (r : Response) (unit : Option DataUnit) : Decoder (Option DataUnit) :=
  match a with
  | .readCoils | .readDiscreteInputs => decodeBits a r unit
  | .readHoldingRegisters | .readInputRegisters | .readWriteMultipleRegisters =>
    decodeRegisters a r unit
  | .writeSingleCoil => do
    let (start, value) ← readTwoWords a r
    let on ← settle (Datum.coilOfWord value)
    settle (.ok (unit.map fun _ =>
      { table := .coils, start, count := 1, values := [on.toUInt16] }))
  | .writeSingleRegister => do
    let (start, value) ← readTwoWords a r
    settle (.ok (unit.map fun _ =>
      { table := .holdingRegisters, start, count := 1, values := [value] }))
  | .writeMultipleCoils => do
    let (start, count) ← readTwoWords a r
    settle (.ok (unit.map fun u => { u with table := .coils, start, count }.resized))
  | .writeMultipleRegisters => do
    let (start, count) ← readTwoWords a r
    if 1 ≤ count.toNat ∧ count.toNat ≤ registerWriteLimit then
      settle (.ok (unit.map fun u =>
        { u with table := .holdingRegisters, start, count }.resized))
    else settle (.error (.unwritableCount count))

/-- Decodes a response to the access `a` into a unit, if there is one. -/
def decodeInto (a : Access) (r : Response) (unit : Option DataUnit) :
    Checked (Except DecodeError Unit × Option DataUnit) := do
  let decoded ← (do settle (r.checkAnswers a.code); content a r unit : Decoder _).run
  match decoded with
  | .ok unit => .ok (.ok (), unit)
  | .error reason => .ok (.error reason, unit)

theorem decodeBits_eq (ha : a.code.responseMinimum = 2) (unit : Option DataUnit) :
    decodeBits a r unit =
      settle ((a.countedBytes r.data).map fun packed =>
        unit.map (Content.bits packed).writeTo) := by
  rw [decodeBits, readByteCount_eq (by omega)]
  cases hbytes : a.countedBytes r.data with
  | error reason => rfl
  | ok packed =>
    obtain ⟨count, hdata, -, -⟩ := (Access.countedBytes_eq_ok_iff (by omega)).mp hbytes
    cases unit with
    | none => rfl
    | some u =>
      have hrest : onwards r.data 1 = .ok packed := by
        rw [hdata]
        exact onwards_eq_ok (by simp)
      have hcount : u.count.toNat < placeSize := Nat.lt_trans u.count.toNat_lt (by decide)
      simp only [Except.map, settle_ok_bind, Option.mapM_some, hrest, lift_ok_bind,
        unpackCoils_eq_ok packed hcount]
      rfl

theorem decodeRegisters_eq (ha : a.code.responseMinimum = 3) (unit : Option DataUnit) :
    decodeRegisters a r unit =
      settle ((a.countedRegisters r.data).map fun values =>
        unit.map (Content.registers a.table values).writeTo) := by
  rw [decodeRegisters, readByteCount_eq (by omega)]
  cases hbytes : a.countedBytes r.data with
  | error reason =>
    rw [Access.countedRegisters, hbytes]
    rfl
  | ok bytes =>
    obtain ⟨count, hdata, hcount, hmin⟩ := (Access.countedBytes_eq_ok_iff (by omega)).mp hbytes
    simp only [Except.map, settle_ok_bind]
    by_cases hodd : bytes.length % 2 ≠ 0
    · have hpartial : a.countedRegisters r.data = .error (.partialRegister bytes.length) := by
        rw [Access.countedRegisters, hbytes]
        exact if_pos hodd
      rw [if_pos hodd, hpartial]
    · have hhalf : 2 * (bytes.length / 2) = bytes.length := by omega
      have hregisters : a.countedRegisters r.data = .ok (Registers.unpack bytes) :=
        (Access.countedRegisters_eq_ok_iff ha).mpr
          ⟨count, bytes, hdata, hcount, by omega, by omega, rfl⟩
      have hread : readRegisters (bytes.length / 2) ⟨1, bytes⟩ = .ok (Registers.unpack bytes) := by
        rw [readRegisters_eq_ok (Nat.le_of_eq hhalf), hhalf, List.take_length]
      rw [if_neg hodd, hregisters, hread, lift_ok_bind]
      cases unit with
      | none => rfl
      | some u =>
        have hword : word (bytes.length / 2) = .ok (UInt16.ofNat (bytes.length / 2)) := by
          have := count.toNat_lt
          exact word_eq_ok (by omega)
        simp only [Option.mapM_some, hword, lift_ok_bind, Option.map_some, Content.writeTo,
          Registers.length_unpack]
        rfl

theorem content_eq (a : Access) (r : Response) (unit : Option DataUnit) :
    content a r unit = settle ((a.content r.data).map fun content => unit.map content.writeTo) := by
  cases a with
  | readCoils | readDiscreteInputs =>
    rw [content, decodeBits_eq rfl, Access.content]
    cases Access.countedBytes _ r.data <;> rfl
  | readHoldingRegisters | readInputRegisters | readWriteMultipleRegisters =>
    rw [content, decodeRegisters_eq rfl, Access.content]
    cases Access.countedRegisters _ r.data <;> rfl
  | writeSingleCoil =>
    rw [content, readTwoWords_eq rfl, Access.content]
    cases Access.twoWords _ r.data with
    | error reason => rfl
    | ok words =>
      obtain ⟨address, value⟩ := words
      simp only [settle_ok_bind, ok_bind]
      cases Datum.coilOfWord value <;> rfl
  | writeSingleRegister | writeMultipleCoils =>
    rw [content, readTwoWords_eq rfl, Access.content]
    cases Access.twoWords _ r.data <;> rfl
  | writeMultipleRegisters =>
    rw [content, readTwoWords_eq rfl, Access.content]
    cases Access.twoWords _ r.data with
    | error reason => rfl
    | ok words =>
      obtain ⟨start, count⟩ := words
      simp only [settle_ok_bind, ok_bind]
      split <;> rfl

theorem decodeInto_eq_ok (a : Access) (r : Response) (unit : Option DataUnit) :
    decodeInto a r unit = .ok (a.decodeInto r unit) := by
  rw [decodeInto, content_eq, Access.decodeInto, Access.decode]
  cases r.checkAnswers a.code with
  | error reason => rfl
  | ok _ =>
    rw [ok_bind]
    cases a.content r.data <;> rfl

/-! ## Dispatch and completion -/

/-- Decodes a response into the unit, if there is one, by what its function code asks for. -/
def process (r : Response) (extension : Option Extension) (unit : Option DataUnit) :
    Checked (Logged Verdict) :=
  match Access.ofByte? r.code with
  | some access => do
    let (result, unit) ← decodeInto access r unit
    match result with
    | .ok () => .ok (pure { accepted := true, unit })
    | .error reason => .ok (do
      Logged.emit (.decodingFailed r.code reason)
      pure { accepted := false, unit })
  | none => .ok (r.process extension unit)

/-- What a response means for the reply of an element. -/
def interpret (e : Element) (extension : Option Extension) (r : Response) :
    Checked (Logged (List Action × Nat)) :=
  if r.IsException ∨ e.reply.kind = .raw then .ok (e.interpret extension r)
  else do
    let verdict ← process r extension (some e.unit)
    .ok (do
      let v ← verdict
      pure (Element.conclusion v, v.calls))

/-- Completes the reply of an element with a response. -/
def complete (e : Element) (extension : Option Extension) (r : Response) :
    Checked (Logged (Reply × Nat)) := do
  let meaning ← interpret e extension r
  .ok (do
    let reply ← e.reply.apply (.setResponse r)
    let (actions, calls) ← meaning
    let reply ← reply.applyAll actions
    pure (reply, calls))

theorem process_eq_ok (r : Response) (extension : Option Extension) (unit : Option DataUnit) :
    process r extension unit = .ok (r.process extension unit) := by
  cases h : Access.ofByte? r.code with
  | none => simp only [process, h]
  | some access =>
    simp only [process, Response.process, h, decodeInto_eq_ok, ok_bind]
    obtain ⟨result, decoded⟩ := access.decodeInto r unit
    cases result <;> rfl

theorem interpret_eq_ok (e : Element) (extension : Option Extension) (r : Response) :
    interpret e extension r = .ok (e.interpret extension r) := by
  unfold interpret
  split
  · rfl
  · rename_i h
    obtain ⟨hexc, hkind⟩ := not_or.mp h
    rw [process_eq_ok, ok_bind, Element.interpret, if_neg hexc]
    cases hreply : e.reply.kind with
    | raw => exact absurd hreply hkind
    | common => rfl

theorem complete_eq_ok (e : Element) (extension : Option Extension) (r : Response) :
    complete e extension r = .ok (e.complete extension r) := by
  rw [complete, interpret_eq_ok]
  rfl

/-- None of the operations that could fail does. Whatever the unit, the response, the unit to decode
into and the element of the queue are, a unit is made, a request is built, and a response is
decoded, dispatched and told to the reply, in the same way with checks as without them. -/
theorem no_operation_fails :
    (∀ table start values,
      ofValues table start values = .ok (DataUnit.ofValues table start values)) ∧
    (∀ u, readRequest u = .ok u.readRequest) ∧
    (∀ u, writeRequest u = .ok u.writeRequest) ∧
    (∀ read write, exchangeRequest read write = .ok (read.exchangeRequest write)) ∧
    (∀ a r unit, decodeInto a r unit = .ok (a.decodeInto r unit)) ∧
    (∀ r extension unit, process r extension unit = .ok (r.process extension unit)) ∧
    ∀ e extension r, complete e extension r = .ok (e.complete extension r) :=
  ⟨ofValues_eq_ok, readRequest_eq_ok, writeRequest_eq_ok, exchangeRequest_eq_ok, decodeInto_eq_ok,
    process_eq_ok, complete_eq_ok⟩

end Checked

end Modbus
