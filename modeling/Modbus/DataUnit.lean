import Modbus.Table
import Modbus.Values

/-!
# Data units

A data unit is a range of one table together with the values its elements have: it is what a caller
asks to read or write, and what a response is decoded into. Coil states are stored as `0` and `1`.

Its fields are set independently of each other, so that a unit may have more or fewer values than
elements, or a range that no table has. `IsValid` tells which ranges exist.
-/

namespace Modbus

/-- A range of `count` elements of `table` from address `start`, and their values. -/
structure DataUnit where
  table : Table := .invalid
  start : UInt16 := 0
  count : UInt16 := 0
  values : List UInt16 := []
  deriving DecidableEq, Repr, Inhabited

namespace DataUnit

/-- A range whose elements are all zero. -/
def zeros (table : Table) (start count : UInt16) : DataUnit :=
  { table, start, count, values := List.replicate count.toNat 0 }

/-- The range from `start` that holds exactly `values`. A range has at most 65535 elements, so
values past that many are dropped. -/
def ofValues (table : Table) (start : UInt16) (values : List UInt16) : DataUnit :=
  let kept := values.take 65535
  { table, start, count := UInt16.ofNat kept.length, values := kept }

/-- The range of coils from `start` with the given states. -/
def ofCoils (start : UInt16) (states : List Bool) : DataUnit :=
  ofValues .coils start (states.map Bool.toUInt16)

/-- The value at `index`, if there is one. -/
def value? (u : DataUnit) (index : Nat) : Option UInt16 :=
  u.values[index]?

/-- The values as coil states, for a unit of a bit table. -/
def coils? (u : DataUnit) : Option (List Bool) :=
  if u.table.isBit then some (u.values.map (· != 0)) else none

/-- The unit with its values cut, or filled with zeros, to its element count. -/
def resized (u : DataUnit) : DataUnit :=
  { u with values := Values.resize u.count.toNat u.values }

/-- The range exists: it belongs to a table, has an element and ends within the 65536 addresses. -/
def IsValid (u : DataUnit) : Prop :=
  u.table ≠ .invalid ∧ 0 < u.count ∧ u.start.toNat + u.count.toNat ≤ 0x10000

instance (u : DataUnit) : Decidable u.IsValid :=
  inferInstanceAs (Decidable (_ ∧ _ ∧ _))

@[simp] theorem length_values_resized (u : DataUnit) :
    u.resized.values.length = u.resized.count.toNat := by
  simp [resized]

end DataUnit

end Modbus
