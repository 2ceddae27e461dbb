import Modbus.Proofs.Grammar
import Modbus.Proofs.Layouts
import Modbus.Proofs.RoundTrips

/-!
# Writing back what was read

The values that a response delivers can be written again, and then they travel in the bytes in which
they came: `writing_back_repeats_the_bytes` finds the payload of the response in the request. Of
registers it is the whole payload, of coils there is one difference. A server may fill the last byte
with anything, and a request fills it with zeros, so the bits past the last coil come back cleared.

At the bottom of it, packing undoes unpacking (`Registers.pack_unpack`, `Coils.pack_unpack`). What
is left to do here is to find the values of the response in the unit, and those of the unit in the
request.
-/

namespace Modbus

/-! ## Units that have been read -/

namespace DataUnit

variable {u v : DataUnit} {r : Response} {a : Access}

/-- A unit that has been decoded into holds what the payload says. -/
theorem exists_conveys_of_decodeInto (h : a.decodeInto r (some u) = (.ok (), some v)) :
    ∃ content, a.Conveys r.data content ∧ r.data.length ≤ maxPayload ∧ v = content.writeTo u := by
  have hfst : (a.decodeInto r (some u)).1 = .ok () := by rw [h]
  obtain ⟨content, hdecode⟩ := Access.decodeInto_fst_eq_ok_iff.mp hfst
  obtain ⟨-, hsize, hconveys⟩ := Access.decode_eq_ok_iff.mp hdecode
  rw [Access.decodeInto, hdecode] at h
  exact ⟨content, hconveys, hsize, (Option.some.inj (congrArg Prod.snd h)).symm⟩

theorem CanBeWritten.writeForm (h : u.CanBeWritten) : u.WriteForm u.writeRequest :=
  (writeRequest_of_ne_invalid h.writeRequest_ne_invalid).2

/-! ## Registers -/

/-- Holding registers that a payload carries become the values of the unit, and their number its
count. -/
theorem exists_registers_of_decodeInto {n : Nat} (hread : a.reads)
    (htable : a.table = .holdingRegisters) (h : a.decodeInto r (some u) = (.ok (), some v))
    (hlength : r.data.length = 2 * n + 1) :
    ∃ size bytes, r.data = size :: bytes ∧ size.toNat = 2 * n ∧ bytes.length = 2 * n ∧ 1 ≤ n ∧
      v = { u with
        table := .holdingRegisters
        count := UInt16.ofNat n
        values := Registers.unpack bytes } := by
  obtain ⟨content, hconveys, -, rfl⟩ := exists_conveys_of_decodeInto h
  cases a with
  | readHoldingRegisters | readWriteMultipleRegisters =>
    obtain ⟨size, bytes, hdata, hsize, -, hmin, rfl⟩ := hconveys
    have hbytes : bytes.length = 2 * n := by
      rw [hdata, List.length_cons] at hlength
      omega
    have hcount : (Registers.unpack bytes).length = n := by
      rw [Registers.length_unpack]
      omega
    refine ⟨size, bytes, hdata, by omega, hbytes, by omega, ?_⟩
    rw [Content.writeTo, hcount]
    rfl
  | readCoils | readDiscreteInputs | readInputRegisters | writeSingleCoil | writeMultipleCoils =>
    cases htable
  | writeSingleRegister | writeMultipleRegisters => cases hread

theorem canBeWritten_registers {values : List UInt16}
    (hrange : u.start.toNat + values.length ≤ 65536) (hpos : 1 ≤ values.length)
    (hlimit : values.length ≤ 123) :
    CanBeWritten { u with
      table := .holdingRegisters, count := UInt16.ofNat values.length, values } := by
  have hcount : (UInt16.ofNat values.length).toNat = values.length :=
    UInt16.toNat_ofNat_of_lt' (Nat.lt_of_le_of_lt hlimit (by decide))
  constructor
  · exact .inr rfl
  · rwa [hcount]
  · exact Nat.le_of_eq hcount
  · rwa [hcount]
  · rwa [hcount]

/-- A unit of registers, with as many values as elements, is written in the bytes that the values
were read from. -/
theorem writeRequest_of_unpacked {size : UInt8} {bytes : List UInt8} {n : Nat}
    (htable : v.table = .holdingRegisters) (hcount : v.count.toNat = n)
    (hvalues : v.values = Registers.unpack bytes) (hsize : size.toNat = 2 * n)
    (hlength : bytes.length = 2 * n) (hwritten : v.CanBeWritten) :
    (2 ≤ n → v.writeRequest = ⟨16, Word.bytes v.start ++ Word.bytes v.count ++ size :: bytes⟩) ∧
      (n = 1 → v.writeRequest = ⟨6, Word.bytes v.start ++ bytes⟩) := by
  have hvaluesLength : v.values.length = n := by
    rw [hvalues, Registers.length_unpack]
    omega
  have hcontent : v.content = v.values := List.take_of_length_le (by omega)
  have hpacked : Registers.pack v.content = bytes := by
    rw [hcontent, hvalues]
    exact Registers.pack_unpack (by omega)
  have hcontentLength : v.content.length = n := by rw [hcontent, hvaluesLength]
  have hform := hwritten.writeForm
  generalize v.writeRequest = q at hform
  cases hform with
  | coil value hcoils hone => cases htable.symm.trans hcoils
  | coils hcoils hmin hmax => cases htable.symm.trans hcoils
  | register value hregisters hone =>
    have hn : n = 1 := by
      rw [← hcontentLength, hone]
      rfl
    rw [hone] at hpacked
    rw [← hpacked]
    exact ⟨by omega, fun _ => rfl⟩
  | registers hregisters hmin hmax =>
    have hbyte : UInt8.ofNat bytes.length = size := by
      rw [hlength, ← hsize, UInt8.ofNat_toNat]
    rw [hpacked, multipleWriteRequest, hbyte]
    exact ⟨fun _ => rfl, by omega⟩

/-! ## Coils -/

/-- States that a payload carries become the values of the unit, as many as it has elements. -/
theorem exists_bits_of_decodeInto (h : Access.readCoils.decodeInto r (some u) = (.ok (), some v)) :
    ∃ size bytes, r.data = size :: bytes ∧ bytes.length = size.toNat ∧
      v = { u with values := Coils.unpack bytes u.count.toNat } := by
  obtain ⟨content, hconveys, -, rfl⟩ := exists_conveys_of_decodeInto h
  obtain ⟨size, bytes, hdata, hsize, -, rfl⟩ := hconveys
  exact ⟨size, bytes, hdata, hsize, rfl⟩

theorem canBeWritten_coils {values : List UInt16} (htable : u.table = .coils)
    (hrange : u.start.toNat + u.count.toNat ≤ 65536) (hlength : values.length = u.count.toNat)
    (hpos : 1 ≤ u.count.toNat) (hlimit : u.count.toNat ≤ 1968) :
    CanBeWritten { u with values } where
  table_mem := .inl htable
  range_le := hrange
  le_values := Nat.le_of_eq hlength.symm
  one_le := hpos
  le_limit := by
    rw [htable]
    exact hlimit

/-- A unit of coils with the states that bytes carry is written in these bytes, but without the bits
past its last coil. -/
theorem writeRequest_of_unpacked_bits {size : UInt8} {bytes : List UInt8}
    (htable : v.table = .coils) (hvalues : v.values = Coils.unpack bytes v.count.toNat)
    (hsize : size.toNat = bytes.length) (hlength : bytes.length = (v.count.toNat + 7) / 8)
    (hmany : 2 ≤ v.count.toNat) (hwritten : v.CanBeWritten) :
    v.writeRequest =
      ⟨15, Word.bytes v.start ++ Word.bytes v.count ++
        size :: Coils.cleared v.count.toNat bytes⟩ := by
  have hcontent : v.content = Coils.unpack bytes v.count.toNat := by
    rw [content, hvalues]
    exact List.take_of_length_le (Nat.le_of_eq (Coils.length_unpack _ _))
  have hpacked : Coils.pack v.content = Coils.cleared v.count.toNat bytes := by
    rw [hcontent, Coils.pack_unpack hlength]
  have hcontentLength : v.content.length = v.count.toNat := by
    rw [hcontent, Coils.length_unpack]
  have hform := hwritten.writeForm
  generalize v.writeRequest = q at hform
  cases hform with
  | register value hregisters hone => cases htable.symm.trans hregisters
  | registers hregisters hmin hmax => cases htable.symm.trans hregisters
  | coil value hcoils hone =>
    rw [hone, List.length_singleton] at hcontentLength
    omega
  | coils hcoils hmin hmax =>
    have hbyte : UInt8.ofNat (Coils.cleared v.count.toNat bytes).length = size := by
      rw [Coils.length_cleared, ← hsize, UInt8.ofNat_toNat]
    rw [hpacked, multipleWriteRequest, hbyte]
    rfl

end DataUnit

/-- Who writes what a response has delivered sends the bytes of the response back.

Holding registers, read alone or while others were written, are sent with the whole payload behind
their address and number, or just as their two bytes if it is a single one. Coils that fill the
bytes of the response are sent with the same number of bytes, and these are the same except that no
bit past the last coil is set. -/
theorem writing_back_repeats_the_bytes {r : Response} {u v : DataUnit} {n : Nat} :
    (∀ a : Access, a = .readHoldingRegisters ∨ a = .readWriteMultipleRegisters →
      a.decodeInto r (some u) = (.ok (), some v) → r.data.length = 2 * n + 1 →
      u.start.toNat + n ≤ 65536 → n ≤ 123 →
      v.writeRequest.IsValid ∧ v.count.toNat = n ∧
      (2 ≤ n → v.writeRequest = ⟨16, Word.bytes u.start ++ Word.bytes v.count ++ r.data⟩) ∧
      (n = 1 → ∃ size hi lo, r.data = [size, hi, lo] ∧
        v.writeRequest = ⟨6, Word.bytes u.start ++ [hi, lo]⟩)) ∧
    (∀ size bytes, Access.readCoils.decodeInto r (some u) = (.ok (), some v) →
      u.table = .coils → u.count.toNat = n → u.start.toNat + n ≤ 65536 → 2 ≤ n → n ≤ 1968 →
      r.data = size :: bytes → size.toNat = (n + 7) / 8 →
      v.writeRequest.IsValid ∧
      v.writeRequest =
        ⟨15, Word.bytes u.start ++ Word.bytes u.count ++ size :: Coils.cleared n bytes⟩) := by
  refine ⟨fun a ha hdecode hlength hrange hlimit => ?_,
    fun size bytes hdecode htable hcount hrange hmin hmax hdata hsize => ?_⟩
  · have hread : a.reads := by rcases ha with rfl | rfl <;> rfl
    have htable : a.table = .holdingRegisters := by rcases ha with rfl | rfl <;> rfl
    obtain ⟨size, bytes, hdata, hsize, hbytes, hpos, rfl⟩ :=
      DataUnit.exists_registers_of_decodeInto hread htable hdecode hlength
    have hvalues : (Registers.unpack bytes).length = n := by
      rw [Registers.length_unpack]
      omega
    have hcount : (UInt16.ofNat n).toNat = n :=
      UInt16.toNat_ofNat_of_lt' (Nat.lt_of_le_of_lt hlimit (by decide))
    have hwritten := @DataUnit.canBeWritten_registers u (Registers.unpack bytes)
      (by omega) (by omega) (by omega)
    rw [hvalues] at hwritten
    obtain ⟨hmany, hone⟩ :=
      DataUnit.writeRequest_of_unpacked rfl hcount rfl hsize hbytes hwritten
    refine ⟨(DataUnit.writeRequest_isExact _).isValid hwritten, hcount, fun h => ?_, fun h => ?_⟩
    · rw [hmany h, hdata]
    · have htwo : bytes.length = 2 := by omega
      match bytes, htwo with
      | [hi, lo], _ => exact ⟨size, hi, lo, hdata, hone h⟩
  · obtain ⟨_, _, hdata', hbytes, rfl⟩ := DataUnit.exists_bits_of_decodeInto hdecode
    cases hdata.symm.trans hdata'
    subst hcount
    have hwritten := DataUnit.canBeWritten_coils htable hrange
      (Coils.length_unpack bytes u.count.toNat) (Nat.le_of_succ_le hmin) hmax
    exact ⟨(DataUnit.writeRequest_isExact _).isValid hwritten,
      DataUnit.writeRequest_of_unpacked_bits htable rfl hbytes.symm (hbytes.trans hsize) hmin
        hwritten⟩

/-- Two registers that were read into a unit without a table, and ten coils of which the server has
filled the last byte with ones, are written back. -/
theorem filling_does_not_come_back :
    let registers : Response := ⟨3, [4, 0, 7, 1, 2]⟩
    let holding : DataUnit := { start := 5 }
    let held : DataUnit :=
      { table := .holdingRegisters, start := 5, count := 2, values := [7, 0x102] }
    let states : Response := ⟨1, [2, 0xCD, 0xFD]⟩
    let coils : DataUnit := .zeros .coils 19 10
    let on : DataUnit :=
      { table := .coils, start := 19, count := 10, values := [1, 0, 1, 1, 0, 0, 1, 1, 1, 0] }
    Access.readHoldingRegisters.decodeInto registers (some holding) = (.ok (), some held) ∧
      held.writeRequest = ⟨16, [0, 5, 0, 2] ++ registers.data⟩ ∧
      Access.readCoils.decodeInto states (some coils) = (.ok (), some on) ∧
      on.writeRequest = ⟨15, [0, 19, 0, 10, 2, 0xCD, 0x01]⟩ := by
  intro registers holding held states coils on
  have hregisters : Access.readHoldingRegisters.decodeInto registers (some holding) =
      (.ok (), some held) := rfl
  have hstates : Access.readCoils.decodeInto states (some coils) = (.ok (), some on) := rfl
  obtain ⟨-, -, hheld, -⟩ := (@writing_back_repeats_the_bytes registers holding held 2).1 _
    (.inl rfl) hregisters rfl (by decide) (by decide)
  obtain ⟨-, hon⟩ := (@writing_back_repeats_the_bytes states coils on 10).2 _ _
    hstates rfl rfl (by decide) (by decide) (by decide) rfl rfl
  exact ⟨hregisters, (hheld (Nat.le_refl 2)).trans (by decide), hstates, hon.trans (by decide)⟩

end Modbus
