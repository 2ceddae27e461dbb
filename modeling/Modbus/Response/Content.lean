import Modbus.DataUnit
import Modbus.Wire.Coils

/-!
# The content of a response

What a response to a data access says, apart from how its bytes are laid out, is a `Content`.
`Content.writeTo` records it in a data unit.

A response never says all that a unit holds. What it leaves open is taken from the unit that the
request was made from, so each form of content replaces just the fields that it determines. In every
form the unit ends up with as many values as its count says, even if it had more or fewer before.
-/

namespace Modbus

/-- What a response to a data access says. -/
inductive Content
  /-- The packed states of as many bits as were asked for. -/
  | bits (packed : List UInt8)
  /-- The values of registers of a table. -/
  | registers (table : Table) (values : List UInt16)
  /-- One coil has been written. -/
  | coil (address : UInt16) (on : Bool)
  /-- One register has been written. -/
  | register (address value : UInt16)
  /-- A range of coils has been written. -/
  | coilRange (start count : UInt16)
  /-- A range of registers has been written. -/
  | registerRange (start count : UInt16)
  deriving DecidableEq, Repr

/-- Records what a response says in a unit.

States and register values do not tell the address, so the unit's own stays. Packed states do not
tell their number either: it is the unit's count. An acknowledged range does not tell the values:
they are the unit's, one for each element of the range. -/
def Content.writeTo : Content → DataUnit → DataUnit
  | bits packed, u => { u with values := Coils.unpack packed u.count.toNat }
  | registers table values, u => { u with table, count := UInt16.ofNat values.length, values }
  | coil address on, _ => .ofCoils address [on]
  | register address value, _ => .ofValues .holdingRegisters address [value]
  | coilRange start count, u => { u with table := .coils, start, count }.resized
  | registerRange start count, u => { u with table := .holdingRegisters, start, count }.resized

end Modbus
