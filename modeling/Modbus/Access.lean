import Modbus.FunctionCode
import Modbus.Table

/-!
# Data access

Nine of the functions read or write the data tables. They are the ones that have requests built and
responses decoded here; `Access` lists them, each with its function code and the table it is about.
The responses of all other functions are left to an extension.
-/

namespace Modbus

/-- The functions that read or write the data tables. -/
inductive Access
  | readCoils
  | readDiscreteInputs
  | readHoldingRegisters
  | readInputRegisters
  | writeSingleCoil
  | writeSingleRegister
  | writeMultipleCoils
  | writeMultipleRegisters
  | readWriteMultipleRegisters
  deriving DecidableEq, Repr

namespace Access

/-- The function code of a data access. -/
def code : Access → FunctionCode
  | readCoils => .readCoils
  | readDiscreteInputs => .readDiscreteInputs
  | readHoldingRegisters => .readHoldingRegisters
  | readInputRegisters => .readInputRegisters
  | writeSingleCoil => .writeSingleCoil
  | writeSingleRegister => .writeSingleRegister
  | writeMultipleCoils => .writeMultipleCoils
  | writeMultipleRegisters => .writeMultipleRegisters
  | readWriteMultipleRegisters => .readWriteMultipleRegisters

/-- The byte that names a data access on the wire. -/
def toByte (a : Access) : UInt8 := a.code.toByte

/-- The table that a data access is about. -/
def table : Access → Table
  | readCoils | writeSingleCoil | writeMultipleCoils => .coils
  | readDiscreteInputs => .discreteInput
  | readInputRegisters => .inputRegisters
  | readHoldingRegisters | writeSingleRegister | writeMultipleRegisters
  | readWriteMultipleRegisters => .holdingRegisters

end Access

/-- The data access that a function is, if it is one. -/
def FunctionCode.access? : FunctionCode → Option Access
  | .readCoils => some .readCoils
  | .readDiscreteInputs => some .readDiscreteInputs
  | .readHoldingRegisters => some .readHoldingRegisters
  | .readInputRegisters => some .readInputRegisters
  | .writeSingleCoil => some .writeSingleCoil
  | .writeSingleRegister => some .writeSingleRegister
  | .writeMultipleCoils => some .writeMultipleCoils
  | .writeMultipleRegisters => some .writeMultipleRegisters
  | .readWriteMultipleRegisters => some .readWriteMultipleRegisters
  | .readExceptionStatus | .diagnostic | .getCommEventCounter | .getCommEventLog
  | .reportServerId | .readFileRecord | .writeFileRecord | .maskWriteRegister | .readFifoQueue
  | .readDeviceIdentification => none

/-- The table that a function is about, if it is about one. -/
def FunctionCode.table? (c : FunctionCode) : Option Table :=
  c.access?.map Access.table

/-- The function that reads a table; there is none for `invalid`. -/
def Table.readAccess? : Table → Option Access
  | .coils => some .readCoils
  | .discreteInput => some .readDiscreteInputs
  | .inputRegisters => some .readInputRegisters
  | .holdingRegisters => some .readHoldingRegisters
  | .invalid => none

namespace Access

/-- The data access with code `b` on the wire, if there is one. -/
def ofByte? (b : UInt8) : Option Access :=
  (FunctionCode.ofByte? b).bind FunctionCode.access?

theorem access?_eq_some_iff {c : FunctionCode} {a : Access} : c.access? = some a ↔ a.code = c := by
  constructor
  · intro h
    cases c <;> simp_all [FunctionCode.access?] <;> subst h <;> rfl
  · rintro rfl
    cases a <;> rfl

theorem ofByte?_eq_some_iff {b : UInt8} {a : Access} : ofByte? b = some a ↔ a.toByte = b := by
  simp only [ofByte?, Option.bind_eq_some_iff, FunctionCode.ofByte?_eq_some_iff,
    access?_eq_some_iff, toByte]
  constructor
  · rintro ⟨c, rfl, rfl⟩
    rfl
  · rintro rfl
    exact ⟨_, rfl, rfl⟩

@[simp] theorem ofByte?_toByte (a : Access) : ofByte? a.toByte = some a :=
  ofByte?_eq_some_iff.mpr rfl

end Access

/-- Reading a table is about that table. -/
theorem Table.table_of_readAccess? {t : Table} {a : Access} (h : t.readAccess? = some a) :
    a.table = t := by
  cases t <;> simp [Table.readAccess?] at h <;> subst h <;> rfl

end Modbus
