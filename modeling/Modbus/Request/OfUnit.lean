import Modbus.Access
import Modbus.DataUnit
import Modbus.Datum
import Modbus.Request.Basic
import Modbus.Wire.Coils
import Modbus.Wire.Registers

/-!
# Requests for data units

The requests that read a unit (`readRequest`), write its values (`writeRequest`), or do both at once
(`exchangeRequest`). Each function has room for a limited number of elements, set so that neither
the request nor its response outgrows `maxPayload`.

A unit yields `Request.invalid` if its range does not exist, its table does not have the operation,
it has more elements than there is room for, or it is to be written and has too few values. Values
past the unit's count are never sent.
-/

namespace Modbus

/-! ## Limits -/

/-- How many elements of a table one request can read. -/
def Table.readLimit (t : Table) : Nat :=
  if t.isBit then 2000 else 125

/-- How many coils one request can write. -/
def coilWriteLimit : Nat := 1968

/-- How many registers one request can write. -/
def registerWriteLimit : Nat := 123

/-- How many registers a request that also writes can read. -/
def exchangeReadLimit : Nat := 125

/-- How many registers a request that also reads can write. -/
def exchangeWriteLimit : Nat := 121

/-! ## Requests -/

namespace DataUnit

/-- The values of the unit's elements, without those past its count. -/
def content (u : DataUnit) : List UInt16 :=
  u.values.take u.count.toNat

/-- The range exists and every element of it has a value. -/
def IsWritable (u : DataUnit) : Prop :=
  u.IsValid ∧ u.count.toNat ≤ u.values.length

instance (u : DataUnit) : Decidable u.IsWritable :=
  inferInstanceAs (Decidable (_ ∧ _))

/-- The address and element count of a unit, as they open the payloads for a range. -/
def rangeBytes (u : DataUnit) : List UInt8 :=
  Word.bytes u.start ++ Word.bytes u.count

/-- The request that reads a unit. -/
def readRequest (u : DataUnit) : Request :=
  match u.table.readAccess? with
  | some access =>
    if u.IsValid ∧ u.count.toNat ≤ u.table.readLimit then ⟨access.toByte, u.rangeBytes⟩
    else .invalid
  | none => .invalid

/-- The request that writes one element. -/
def singleWriteRequest (access : Access) (address : UInt16) (value : Datum) : Request :=
  ⟨access.toByte, Word.bytes address ++ Word.bytes value.word⟩

/-- The request that writes a range whose values are already `packed`. -/
def multipleWriteRequest (access : Access) (u : DataUnit) (packed : List UInt8) : Request :=
  ⟨access.toByte, u.rangeBytes ++ UInt8.ofNat packed.length :: packed⟩

/-- The request that writes the values of a unit. One element has a shorter request of its own. -/
def writeRequest (u : DataUnit) : Request :=
  if u.IsWritable then
    match u.table, u.content with
    | .coils, [value] => singleWriteRequest .writeSingleCoil u.start (.coil (value != 0))
    | .coils, values =>
      if values.length ≤ coilWriteLimit then
        multipleWriteRequest .writeMultipleCoils u (Coils.pack values)
      else .invalid
    | .holdingRegisters, [value] =>
      singleWriteRequest .writeSingleRegister u.start (.register value)
    | .holdingRegisters, values =>
      if values.length ≤ registerWriteLimit then
        multipleWriteRequest .writeMultipleRegisters u (Registers.pack values)
      else .invalid
    | _, _ => .invalid
  else .invalid

/-- The request that writes the values of `write` and then reads `read`, both ranges of holding
registers. -/
def exchangeRequest (read write : DataUnit) : Request :=
  if read.table = .holdingRegisters ∧ write.table = .holdingRegisters ∧
      read.IsValid ∧ write.IsWritable ∧
      read.count.toNat ≤ exchangeReadLimit ∧ write.count.toNat ≤ exchangeWriteLimit then
    let packed := Registers.pack write.content
    ⟨Access.readWriteMultipleRegisters.toByte,
      read.rangeBytes ++ write.rangeBytes ++ UInt8.ofNat packed.length :: packed⟩
  else .invalid

end DataUnit

end Modbus
