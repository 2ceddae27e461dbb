import Modbus.Proofs.Grammar
import Modbus.Proofs.Payloads
import Modbus.Proofs.Requests

/-!
# What decoding records

A unit may be in any state when a response is decoded into it, with more or fewer values than
elements or with a range that no table has. Afterwards it has one value for each element, and the
fields that the response says nothing of are as they were. `Access.Records` says for each data
access, from the bytes of the payload, which fields these are and what becomes of the others. There
are four ways: bits that have been read, registers that have been read, a single element that has
been written and a range that has been.

Nothing is left open: a payload and a unit have one unit that is the record of the one in the other
(`Access.Records.eq`).
-/

namespace Modbus

namespace DataUnit

/-! ## Ways to record a payload -/

/-- Bits have been read: the number of the bytes, and the bytes. The unit takes as many bits as it
has elements, from the least significant one of each byte on. Where there are no more bytes its
values are zero. -/
structure RecordsBits (data : List UInt8) (u u' : DataUnit) : Prop where
  table_eq : u'.table = u.table
  start_eq : u'.start = u.start
  count_eq : u'.count = u.count
  length_eq : u'.values.length = u'.count.toNat
  exists_bytes : ∃ size bytes, data = size :: bytes ∧
    ∀ i < u.count.toNat,
      u'.values[i]? = some ((bytes.getD (i / 8) 0).toBitVec.getLsbD (i % 8)).toUInt16

/-- Registers have been read: the number of the bytes, and the bytes, two for each register. The
unit takes them all, and its count from them. -/
structure RecordsRegisters (table : Table) (data : List UInt8) (u u' : DataUnit) : Prop where
  table_eq : u'.table = table
  start_eq : u'.start = u.start
  count_pos : 1 ≤ u'.count.toNat
  count_le : u'.count.toNat ≤ 125
  length_eq : u'.values.length = u'.count.toNat
  exists_bytes : ∃ size bytes, data = size :: bytes ∧ bytes.length = 2 * u'.count.toNat ∧
    ∀ i value, u'.values[i]? = some value →
      ∃ hi lo, bytes[2 * i]? = some hi ∧ bytes[2 * i + 1]? = some lo ∧
        value.toNat = 256 * hi.toNat + lo.toNat

/-- A single element has been written: its address and a word, from which its value is told. Nothing
is kept of the unit. -/
structure RecordsElement (table : Table) (value : UInt8 → UInt8 → UInt16 → Prop)
    (data : List UInt8) (u' : DataUnit) : Prop where
  table_eq : u'.table = table
  count_eq : u'.count = 1
  exists_bytes : ∃ a₁ a₀ v₁ v₀ w, data = [a₁, a₀, v₁, v₀] ∧
    u'.start.toNat = 256 * a₁.toNat + a₀.toNat ∧ u'.values = [w] ∧ value v₁ v₀ w

/-- A range has been written: its address and the number of its elements. The unit keeps its values
for as many elements as there are, with zeros in place of those that are missing. -/
structure RecordsRange (table : Table) (data : List UInt8) (u u' : DataUnit) : Prop where
  table_eq : u'.table = table
  exists_bytes : ∃ a₁ a₀ n₁ n₀, data = [a₁, a₀, n₁, n₀] ∧
    u'.start.toNat = 256 * a₁.toNat + a₀.toNat ∧ u'.count.toNat = 256 * n₁.toNat + n₀.toNat
  length_eq : u'.values.length = u'.count.toNat
  values_eq : ∀ i < u'.count.toNat, u'.values[i]? = some (u.values.getD i 0)

end DataUnit

/-- The unit `u'` is the record, in the unit `u`, of the payload of an answer. -/
def Access.Records (a : Access) (data : List UInt8) (u u' : DataUnit) : Prop :=
  match a with
  | readCoils | readDiscreteInputs => u.RecordsBits data u'
  | readHoldingRegisters | readWriteMultipleRegisters =>
    u.RecordsRegisters .holdingRegisters data u'
  | readInputRegisters => u.RecordsRegisters .inputRegisters data u'
  | writeSingleCoil =>
    u'.RecordsElement .coils
      (fun v₁ v₀ w => v₀ = 0x00 ∧ (v₁ = 0xFF ∧ w = 1 ∨ v₁ = 0x00 ∧ w = 0)) data
  | writeSingleRegister =>
    u'.RecordsElement .holdingRegisters
      (fun v₁ v₀ w => w.toNat = 256 * v₁.toNat + v₀.toNat) data
  | writeMultipleCoils => u.RecordsRange .coils data u'
  | writeMultipleRegisters => u.RecordsRange .holdingRegisters data u'

namespace DataUnit

variable {u v w : DataUnit} {table : Table} {data : List UInt8}

/-! ## One record of a payload -/

theorem eq_of_fields (htable : v.table = w.table) (hstart : v.start = w.start)
    (hcount : v.count = w.count) (hvalues : v.values = w.values) : v = w := by
  cases v
  cases w
  simp_all

/-- Values that there are as many of are equal if they are in each place. -/
theorem values_eq_of_getElem? {n : Nat} (hv : v.values.length = n) (hw : w.values.length = n)
    (h : ∀ i < n, v.values[i]? = w.values[i]?) : v.values = w.values := by
  apply List.ext_getElem?
  intro i
  by_cases hi : i < n
  · exact h i hi
  · rw [List.getElem?_eq_none (by omega), List.getElem?_eq_none (by omega)]

theorem RecordsBits.eq (h : u.RecordsBits data v) (h' : u.RecordsBits data w) : v = w := by
  obtain ⟨_, bytes, rfl, hbits⟩ := h.exists_bytes
  obtain ⟨_, _, ⟨⟩, hbits'⟩ := h'.exists_bytes
  have hcount := h.count_eq.trans h'.count_eq.symm
  refine eq_of_fields (h.table_eq.trans h'.table_eq.symm) (h.start_eq.trans h'.start_eq.symm)
    hcount (values_eq_of_getElem? h.length_eq (hcount ▸ h'.length_eq) fun i hi => ?_)
  rw [h.count_eq] at hi
  rw [hbits i hi, hbits' i hi]

theorem RecordsRegisters.eq (h : u.RecordsRegisters table data v)
    (h' : u.RecordsRegisters table data w) : v = w := by
  obtain ⟨_, bytes, rfl, hsize, hwords⟩ := h.exists_bytes
  obtain ⟨_, _, ⟨⟩, hsize', hwords'⟩ := h'.exists_bytes
  have hcount : v.count = w.count := UInt16.toNat_inj.mp (by omega)
  refine eq_of_fields (h.table_eq.trans h'.table_eq.symm) (h.start_eq.trans h'.start_eq.symm)
    hcount (values_eq_of_getElem? h.length_eq (hcount ▸ h'.length_eq) fun i hi => ?_)
  have hv : i < v.values.length := h.length_eq ▸ hi
  have hw : i < w.values.length := by
    rw [h'.length_eq, ← hcount]
    exact hi
  rw [List.getElem?_eq_getElem hv, List.getElem?_eq_getElem hw]
  obtain ⟨hi₁, lo₁, hhi, hlo, hvalue⟩ := hwords i _ (List.getElem?_eq_getElem hv)
  obtain ⟨hi₂, lo₂, hhi', hlo', hvalue'⟩ := hwords' i _ (List.getElem?_eq_getElem hw)
  cases hhi.symm.trans hhi'
  cases hlo.symm.trans hlo'
  rw [UInt16.toNat_inj.mp (hvalue.trans hvalue'.symm)]

theorem RecordsElement.eq {value : UInt8 → UInt8 → UInt16 → Prop}
    (hvalue : ∀ v₁ v₀ x y, value v₁ v₀ x → value v₁ v₀ y → x = y)
    (h : v.RecordsElement table value data) (h' : w.RecordsElement table value data) : v = w := by
  obtain ⟨a₁, a₀, v₁, v₀, x, rfl, hstart, hx, hword⟩ := h.exists_bytes
  obtain ⟨_, _, _, _, y, ⟨⟩, hstart', hy, hword'⟩ := h'.exists_bytes
  refine eq_of_fields (h.table_eq.trans h'.table_eq.symm)
    (UInt16.toNat_inj.mp (hstart.trans hstart'.symm)) (h.count_eq.trans h'.count_eq.symm) ?_
  rw [hx, hy, hvalue v₁ v₀ x y hword hword']

theorem RecordsRange.eq (h : u.RecordsRange table data v) (h' : u.RecordsRange table data w) :
    v = w := by
  obtain ⟨a₁, a₀, n₁, n₀, rfl, hstart, hcounted⟩ := h.exists_bytes
  obtain ⟨_, _, _, _, ⟨⟩, hstart', hcounted'⟩ := h'.exists_bytes
  have hcount : v.count = w.count := UInt16.toNat_inj.mp (hcounted.trans hcounted'.symm)
  refine eq_of_fields (h.table_eq.trans h'.table_eq.symm)
    (UInt16.toNat_inj.mp (hstart.trans hstart'.symm)) hcount
    (values_eq_of_getElem? h.length_eq (hcount ▸ h'.length_eq) fun i hi => ?_)
  rw [h.values_eq i hi, h'.values_eq i (hcount ▸ hi)]

/-! ## What is recorded -/

theorem toUInt16_getLsbD_getD (bytes : List UInt8) (k j : Nat) :
    (bytes[k]?.map fun b => (b.toBitVec.getLsbD j).toUInt16).getD 0 =
      ((bytes.getD k 0).toBitVec.getLsbD j).toUInt16 := by
  rw [List.getD_eq_getElem?_getD]
  cases bytes[k]? with
  | some b => rfl
  | none =>
    have hzero : BitVec.getLsbD (UInt8.toBitVec 0) j = false := BitVec.getLsbD_zero
    rw [Option.getD_none, hzero]
    rfl

theorem recordsBits_writeTo (u : DataUnit) (size : UInt8) (bytes : List UInt8) :
    u.RecordsBits (size :: bytes) ((Content.bits bytes).writeTo u) where
  table_eq := rfl
  start_eq := rfl
  count_eq := rfl
  length_eq := Coils.length_unpack bytes u.count.toNat
  exists_bytes := by
    refine ⟨size, bytes, rfl, fun i hi => ?_⟩
    rw [← toUInt16_getLsbD_getD]
    exact Coils.getElem?_unpack bytes hi

theorem recordsRegisters_writeTo (u : DataUnit) (table : Table) {size : UInt8}
    {bytes : List UInt8} (heven : bytes.length % 2 = 0) (hmin : 2 ≤ bytes.length)
    (hmax : bytes.length ≤ 251) :
    u.RecordsRegisters table (size :: bytes)
      ((Content.registers table (Registers.unpack bytes)).writeTo u) := by
  have hlength := Registers.length_unpack bytes
  have hcount : (UInt16.ofNat (Registers.unpack bytes).length).toNat = bytes.length / 2 := by
    rw [UInt16.toNat_ofNat_of_lt' (by rw [hlength, UInt16.size]; omega), hlength]
  refine ⟨rfl, rfl, ?_, ?_, hlength.trans hcount.symm, size, bytes, rfl, ?_, fun i value h => ?_⟩
  · show 1 ≤ (UInt16.ofNat _).toNat
    omega
  · show (UInt16.ofNat _).toNat ≤ 125
    omega
  · show bytes.length = 2 * (UInt16.ofNat _).toNat
    omega
  · have hplace : (Registers.unpack bytes)[i]? = some value := h
    rw [Registers.getElem?_unpack] at hplace
    obtain ⟨hi, hhi, hword⟩ := Option.bind_eq_some_iff.mp hplace
    obtain ⟨lo, hlo, rfl⟩ := Option.map_eq_some_iff.mp hword
    exact ⟨hi, lo, hhi, hlo, Word.toNat_ofBytes hi lo⟩

theorem recordsRange_writeTo (u : DataUnit) (table : Table) (start count : UInt16) :
    u.RecordsRange table (Word.bytes start ++ Word.bytes count)
      { u with table, start, count }.resized where
  table_eq := rfl
  exists_bytes :=
    ⟨_, _, _, _, rfl, Word.toNat_eq_high_low start, Word.toNat_eq_high_low count⟩
  length_eq := length_values_resized _
  values_eq i hi := by
    rw [resized, Values.getElem?_resize, List.getD_eq_getElem?_getD]
    exact if_pos hi

end DataUnit

namespace Access

variable {a : Access} {data : List UInt8} {content : Content} {u v w : DataUnit}

theorem Records.length_eq (h : a.Records data u v) : v.values.length = v.count.toNat := by
  have helement {table : Table} {value : UInt8 → UInt8 → UInt16 → Prop}
      (h : v.RecordsElement table value data) : v.values.length = v.count.toNat := by
    obtain ⟨_, _, _, _, _, -, -, hvalues, -⟩ := h.exists_bytes
    rw [hvalues, h.count_eq]
    rfl
  cases a with
  | readCoils | readDiscreteInputs => exact DataUnit.RecordsBits.length_eq h
  | readHoldingRegisters | readInputRegisters | readWriteMultipleRegisters =>
    exact DataUnit.RecordsRegisters.length_eq h
  | writeSingleCoil | writeSingleRegister => exact helement h
  | writeMultipleCoils | writeMultipleRegisters => exact DataUnit.RecordsRange.length_eq h

/-- A payload is recorded in a unit in one way. -/
theorem Records.eq (h : a.Records data u v) (h' : a.Records data u w) : v = w := by
  cases a with
  | readCoils | readDiscreteInputs => exact DataUnit.RecordsBits.eq h h'
  | readHoldingRegisters | readInputRegisters | readWriteMultipleRegisters =>
    exact DataUnit.RecordsRegisters.eq h h'
  | writeSingleCoil =>
    refine DataUnit.RecordsElement.eq (fun v₁ v₀ x y hx hy => ?_) h h'
    obtain ⟨-, ⟨rfl, rfl⟩ | ⟨rfl, rfl⟩⟩ := hx <;> obtain ⟨-, ⟨h₁, rfl⟩ | ⟨h₁, rfl⟩⟩ := hy
    · rfl
    · cases h₁
    · cases h₁
    · rfl
  | writeSingleRegister =>
    exact DataUnit.RecordsElement.eq
      (fun v₁ v₀ x y hx hy => UInt16.toNat_inj.mp (hx.trans hy.symm)) h h'
  | writeMultipleCoils | writeMultipleRegisters => exact DataUnit.RecordsRange.eq h h'

/-- What a payload says is recorded from its bytes. -/
theorem Conveys.records (h : a.Conveys data content) (hsize : data.length ≤ maxPayload)
    (u : DataUnit) : a.Records data u (content.writeTo u) := by
  cases a with
  | readCoils | readDiscreteInputs =>
    obtain ⟨size, bytes, rfl, -, -, rfl⟩ := h
    exact u.recordsBits_writeTo size bytes
  | readHoldingRegisters | readInputRegisters | readWriteMultipleRegisters =>
    obtain ⟨size, bytes, rfl, hcount, heven, hmin, rfl⟩ := h
    rw [← hcount] at heven hmin
    exact u.recordsRegisters_writeTo _ heven hmin (Nat.le_of_succ_le_succ hsize)
  | writeSingleCoil =>
    obtain ⟨address, on, rfl, rfl⟩ := h
    rw [Datum.bytes_word_coil]
    refine ⟨rfl, rfl, _, _, _, _, on.toUInt16, rfl, Word.toNat_eq_high_low address, rfl, rfl, ?_⟩
    cases on
    · exact .inr ⟨rfl, rfl⟩
    · exact .inl ⟨rfl, rfl⟩
  | writeSingleRegister =>
    obtain ⟨address, value, rfl, rfl⟩ := h
    exact ⟨rfl, rfl, _, _, _, _, value, rfl, Word.toNat_eq_high_low address, rfl,
      Word.toNat_eq_high_low value⟩
  | writeMultipleCoils =>
    obtain ⟨start, count, rfl, rfl⟩ := h
    exact u.recordsRange_writeTo .coils start count
  | writeMultipleRegisters =>
    obtain ⟨start, count, rfl, -, -, rfl⟩ := h
    exact u.recordsRange_writeTo .holdingRegisters start count

end Access

/-- Whichever data access a response is decoded for, and whatever the unit was, it has one value for
each element afterwards if decoding succeeds, and is the one record of the payload in the unit. -/
theorem decoding_records_the_answer {a : Access} {r : Response} {u : DataUnit}
    (h : (a.decodeInto r (some u)).1 = .ok ()) :
    ∃ u', (a.decodeInto r (some u)).2 = some u' ∧ u'.values.length = u'.count.toNat ∧
      a.Records r.data u u' ∧ ∀ v, a.Records r.data u v → v = u' := by
  obtain ⟨content, hdecode⟩ := Access.decodeInto_fst_eq_ok_iff.mp h
  obtain ⟨-, hsize, hconveys⟩ := Access.decode_eq_ok_iff.mp hdecode
  have hrecords := hconveys.records hsize u
  refine ⟨content.writeTo u, ?_, hrecords.length_eq, hrecords, fun v hv => hv.eq hrecords⟩
  rw [Access.decodeInto, hdecode]
  rfl

/-- A unit with two values for ten elements takes eight coils and two zeros from an answer, and has
its two values and two zeros left when four coils have been written. -/
theorem unit_with_missing_values_is_restored :
    let u : DataUnit := { table := .inputRegisters, start := 9, count := 10, values := [7, 0] }
    let read : Response := ⟨1, [1, 0xA5]⟩
    let written : Response := ⟨15, [0, 5, 0, 4]⟩
    (Access.readCoils.decodeInto read (some u)).1 = .ok () ∧
      (Access.writeMultipleCoils.decodeInto written (some u)).1 = .ok () ∧
      Access.readCoils.Records read.data u { u with values := [1, 0, 1, 0, 0, 1, 0, 1, 0, 0] } ∧
      Access.writeMultipleCoils.Records written.data u
        { table := .coils, start := 5, count := 4, values := [7, 0, 0, 0] } := by
  intro u read written
  have hread : (Access.readCoils.decodeInto read (some u)).1 = .ok () := rfl
  have hwritten : (Access.writeMultipleCoils.decodeInto written (some u)).1 = .ok () := rfl
  obtain ⟨u₁, hu₁, -, hrecords₁, -⟩ := decoding_records_the_answer hread
  obtain ⟨u₂, hu₂, -, hrecords₂, -⟩ := decoding_records_the_answer hwritten
  cases hu₁
  cases hu₂
  exact ⟨hread, hwritten, hrecords₁, hrecords₂⟩

end Modbus
