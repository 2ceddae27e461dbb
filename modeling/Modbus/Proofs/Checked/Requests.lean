import Modbus.Proofs.Checked.Packing

/-!
# Building requests with checks

The requests for a unit, built with a check before every step that could fail. A unit may have any
number of values, whatever its count says, so that taking the values of its elements and looking at
the first of them are such steps. So are the sum that a range ends at and the conversion of a size
to the byte that announces it: each is guarded by a condition that is tested earlier.

The lemmas at the end say that no step fails and that the request is the one that is built without
the checks.
-/

namespace Modbus

namespace DataUnit

variable {u : DataUnit}

theorem exists_content_eq_singleton (h : u.IsWritable) (hone : u.count = 1) :
    ∃ value, u.content = [value] := by
  apply List.length_eq_one_iff.mp
  rw [length_content h, hone]
  rfl

theorem exists_content_eq_cons_cons (h : u.IsWritable) (hmany : u.count ≠ 1) :
    ∃ first second rest, u.content = first :: second :: rest := by
  have hmin := two_le_length_content h fun value hcontent => hmany (count_eq_one h hcontent)
  match hcontent : u.content, hmin with
  | first :: second :: rest, _ => exact ⟨first, second, rest, rfl⟩

theorem writeRequest_of_coils (h : u.IsWritable) (hmany : u.count ≠ 1) (htable : u.table = .coils) :
    u.writeRequest =
      if u.count.toNat ≤ coilWriteLimit then
        multipleWriteRequest .writeMultipleCoils u (Coils.pack u.content)
      else .invalid := by
  obtain ⟨first, second, rest, hcontent⟩ := exists_content_eq_cons_cons h hmany
  rw [writeRequest, if_pos h, ← length_content h, htable, hcontent]

theorem writeRequest_of_registers (h : u.IsWritable) (hmany : u.count ≠ 1)
    (htable : u.table = .holdingRegisters) :
    u.writeRequest =
      if u.count.toNat ≤ registerWriteLimit then
        multipleWriteRequest .writeMultipleRegisters u (Registers.pack u.content)
      else .invalid := by
  obtain ⟨first, second, rest, hcontent⟩ := exists_content_eq_cons_cons h hmany
  rw [writeRequest, if_pos h, ← length_content h, htable, hcontent]

end DataUnit

namespace Checked

/-! ## Units -/

/-- The range from `start` that holds exactly `values`. -/
def ofValues (table : Table) (start : UInt16) (values : List UInt16) : Checked DataUnit := do
  let kept := values.take 65535
  let count ← word kept.length
  .ok { table, start, count, values := kept }

/-- Whether the range of a unit exists. -/
def isValid (u : DataUnit) : Checked Bool :=
  if u.table = .invalid then .ok false
  else if u.count = 0 then .ok false
  else do
    let stop ← add 0x100000000 u.start.toNat u.count.toNat
    .ok (stop ≤ 0x10000)

theorem ofValues_eq_ok (table : Table) (start : UInt16) (values : List UInt16) :
    ofValues table start values = .ok (DataUnit.ofValues table start values) := by
  have hlength : (values.take 65535).length < 0x10000 := by
    rw [List.length_take]
    omega
  simp only [ofValues, word_eq_ok hlength, ok_bind]
  rfl

theorem isValid_eq_ok (u : DataUnit) : isValid u = .ok (decide u.IsValid) := by
  have hsum : u.start.toNat + u.count.toNat < 0x100000000 := by
    have := u.start.toNat_lt
    have := u.count.toNat_lt
    omega
  have hpos : 0 < u.count ↔ u.count ≠ 0 := UInt16.pos_iff_ne_zero
  simp only [isValid, add_eq_ok hsum, ok_bind]
  split
  · simp [DataUnit.IsValid, *]
  · split
    · simp [DataUnit.IsValid, *]
    · simp [DataUnit.IsValid, *]

/-! ## Requests -/

/-- The request that reads a unit. -/
def readRequest (u : DataUnit) : Checked Request := do
  let valid ← isValid u
  if valid then
    match u.table.readAccess? with
    | some access =>
      if u.table.readLimit < u.count.toNat then .ok .invalid
      else .ok ⟨access.toByte, u.rangeBytes⟩
    | none => .ok .invalid
  else .ok .invalid

/-- The request that writes the values of a unit of coils. -/
def writeCoils (u : DataUnit) (values : List UInt16) : Checked Request :=
  if u.count = 1 then do
    let value ← get values 0
    .ok (DataUnit.singleWriteRequest .writeSingleCoil u.start (.coil (value != 0)))
  else if coilWriteLimit < u.count.toNat then .ok .invalid
  else do
    let size ← byteCount u.count.toNat
    let size ← byte size
    let packed ← packCoils values
    .ok ⟨Access.writeMultipleCoils.toByte, u.rangeBytes ++ size :: packed⟩

/-- The request that writes the values of a unit of holding registers. -/
def writeRegisters (u : DataUnit) (values : List UInt16) : Checked Request :=
  if u.count = 1 then do
    let value ← get values 0
    .ok (DataUnit.singleWriteRequest .writeSingleRegister u.start (.register value))
  else if registerWriteLimit < u.count.toNat then .ok .invalid
  else do
    let packed ← packRegisters values
    let size ← byte packed.length
    .ok ⟨Access.writeMultipleRegisters.toByte, u.rangeBytes ++ size :: packed⟩

/-- The request that writes the values of a unit. -/
def writeRequest (u : DataUnit) : Checked Request := do
  let valid ← isValid u
  if valid ∧ u.count.toNat ≤ u.values.length then do
    let values ← upTo u.values u.count.toNat
    match u.table with
    | .coils => writeCoils u values
    | .holdingRegisters => writeRegisters u values
    | .discreteInput | .inputRegisters | .invalid => .ok .invalid
  else .ok .invalid

/-- The request that writes the values of `write` and then reads `read`. -/
def exchangeRequest (read write : DataUnit) : Checked Request :=
  if read.table ≠ .holdingRegisters ∨ write.table ≠ .holdingRegisters then .ok .invalid
  else do
    let readable ← isValid read
    let writable ← isValid write
    if readable ∧ writable ∧ read.count.toNat ≤ exchangeReadLimit ∧
        write.count.toNat ≤ exchangeWriteLimit ∧ write.count.toNat ≤ write.values.length then do
      let values ← upTo write.values write.count.toNat
      let packed ← packRegisters values
      let size ← byte packed.length
      .ok ⟨Access.readWriteMultipleRegisters.toByte,
        read.rangeBytes ++ write.rangeBytes ++ size :: packed⟩
    else .ok .invalid

theorem readRequest_eq_ok (u : DataUnit) : readRequest u = .ok u.readRequest := by
  rw [readRequest, isValid_eq_ok, ok_bind, DataUnit.readRequest]
  by_cases hvalid : u.IsValid
  · rw [if_pos (decide_eq_true hvalid)]
    cases u.table.readAccess? with
    | some access =>
      by_cases hlimit : u.count.toNat ≤ u.table.readLimit
      · simp [hvalid, hlimit, Nat.not_lt.mpr hlimit]
      · simp [hlimit, Nat.not_le.mp hlimit]
    | none => rfl
  · simp only [hvalid, decide_false, false_and, if_false]
    cases u.table.readAccess? <;> rfl

section Writing

variable {u : DataUnit} (h : u.IsWritable)
include h

theorem writeCoils_eq_ok (htable : u.table = .coils) :
    writeCoils u u.content = .ok u.writeRequest := by
  unfold writeCoils
  by_cases hone : u.count = 1
  · obtain ⟨value, hcontent⟩ := DataUnit.exists_content_eq_singleton h hone
    rw [if_pos hone, DataUnit.writeRequest, if_pos h, htable, hcontent]
    rfl
  · rw [if_neg hone, DataUnit.writeRequest_of_coils h hone htable]
    by_cases hlimit : u.count.toNat ≤ coilWriteLimit
    · have hcount : u.count.toNat ≤ 1968 := hlimit
      have hplaces : placeSize = 0x100000000 := rfl
      have hlength := DataUnit.length_content h
      have hsize : Coils.byteCount u.count.toNat < 0x100 := by
        unfold Coils.byteCount
        omega
      have hpacked : (Coils.pack u.content).length = Coils.byteCount u.count.toNat := by
        rw [Coils.length_pack, hlength]
      rw [if_neg (by omega), byteCount_eq_ok (by omega), ok_bind, byte_eq_ok hsize, ok_bind,
        packCoils_eq_ok (by omega), ok_bind, if_pos hlimit, DataUnit.multipleWriteRequest, hpacked]
    · rw [if_pos (by omega), if_neg hlimit]

theorem writeRegisters_eq_ok (htable : u.table = .holdingRegisters) :
    writeRegisters u u.content = .ok u.writeRequest := by
  unfold writeRegisters
  by_cases hone : u.count = 1
  · obtain ⟨value, hcontent⟩ := DataUnit.exists_content_eq_singleton h hone
    rw [if_pos hone, DataUnit.writeRequest, if_pos h, htable, hcontent]
    rfl
  · rw [if_neg hone, DataUnit.writeRequest_of_registers h hone htable]
    by_cases hlimit : u.count.toNat ≤ registerWriteLimit
    · have hcount : u.count.toNat ≤ 123 := hlimit
      have hplaces : placeSize = 0x100000000 := rfl
      have hlength := DataUnit.length_content h
      have hsize : (Registers.pack u.content).length < 0x100 := by
        rw [Registers.length_pack]
        omega
      rw [if_neg (by omega), packRegisters_eq_ok (by omega), ok_bind, byte_eq_ok hsize, ok_bind,
        if_pos hlimit, DataUnit.multipleWriteRequest]
    · rw [if_pos (by omega), if_neg hlimit]

end Writing

theorem writeRequest_eq_ok (u : DataUnit) : writeRequest u = .ok u.writeRequest := by
  rw [writeRequest, isValid_eq_ok, ok_bind]
  by_cases h : u.IsWritable
  · have hcontent : u.values.take u.count.toNat = u.content := rfl
    rw [if_pos ⟨decide_eq_true h.1, h.2⟩, upTo_eq_ok h.2, ok_bind, hcontent]
    split
    · rename_i htable
      exact writeCoils_eq_ok h htable
    · rename_i htable
      exact writeRegisters_eq_ok h htable
    all_goals
      rename_i htable
      rw [DataUnit.writeRequest, if_pos h, htable]
  · rw [if_neg (by rwa [decide_eq_true_iff]), DataUnit.writeRequest, if_neg h]

/-- A unit with no value for its coil is not written, for there is no value to look at. -/
example : writeCoils { table := .coils, count := 1 } [] = .error (.noElement 0 0) ∧
    writeRequest { table := .coils, count := 1 } = .ok .invalid :=
  ⟨rfl, rfl⟩

theorem exchangeRequest_eq_ok (read write : DataUnit) :
    exchangeRequest read write = .ok (read.exchangeRequest write) := by
  rw [exchangeRequest, isValid_eq_ok, isValid_eq_ok, ok_bind, ok_bind, DataUnit.exchangeRequest]
  by_cases htables : read.table = .holdingRegisters ∧ write.table = .holdingRegisters
  · have hnone : ¬ (read.table ≠ .holdingRegisters ∨ write.table ≠ .holdingRegisters) := by
      simp [htables]
    rw [if_neg hnone]
    by_cases hfits : read.IsValid ∧ write.IsWritable ∧ read.count.toNat ≤ exchangeReadLimit ∧
        write.count.toNat ≤ exchangeWriteLimit
    · obtain ⟨hread, hwrite, hreads, hwrites⟩ := hfits
      have hcount : write.count.toNat ≤ 121 := hwrites
      have hplaces : placeSize = 0x100000000 := rfl
      have hlength := DataUnit.length_content hwrite
      have hsize : (Registers.pack write.content).length < 0x100 := by
        rw [Registers.length_pack]
        omega
      have hcontent : write.values.take write.count.toNat = write.content := rfl
      rw [if_pos (by simp [hread, hwrite.1, hreads, hwrites, hwrite.2]), upTo_eq_ok hwrite.2,
        ok_bind, hcontent, packRegisters_eq_ok (by omega), ok_bind, byte_eq_ok hsize, ok_bind,
        if_pos ⟨htables.1, htables.2, hread, hwrite, hreads, hwrites⟩]
    · rw [if_neg, if_neg]
      · exact fun hall => hfits hall.2.2
      · simp only [decide_eq_true_iff]
        exact fun ⟨hread, hvalid, hreads, hwrites, hvalues⟩ =>
          hfits ⟨hread, ⟨hvalid, hvalues⟩, hreads, hwrites⟩
  · rw [if_pos (Classical.not_and_iff_not_or_not.mp htables), if_neg fun h => htables ⟨h.1, h.2.1⟩]

end Checked

end Modbus
