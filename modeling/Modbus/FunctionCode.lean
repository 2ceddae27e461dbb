/-!
# Function codes

The first byte of a request or response names the function it is about. `FunctionCode` lists the
assigned codes, `toByte` and `ofByte?` are their wire form (`ofByte?_eq_some_iff`). Each function
also sets the least payload that its requests and its responses can have.
-/

namespace Modbus

/-- The functions with an assigned code. -/
inductive FunctionCode
  | readCoils
  | readDiscreteInputs
  | readHoldingRegisters
  | readInputRegisters
  | writeSingleCoil
  | writeSingleRegister
  | readExceptionStatus
  | diagnostic
  | getCommEventCounter
  | getCommEventLog
  | writeMultipleCoils
  | writeMultipleRegisters
  | reportServerId
  | readFileRecord
  | writeFileRecord
  | maskWriteRegister
  | readWriteMultipleRegisters
  | readFifoQueue
  | readDeviceIdentification
  deriving DecidableEq, Repr

namespace FunctionCode

/-- Every assigned function, by rising code. -/
def all : List FunctionCode :=
  [readCoils, readDiscreteInputs, readHoldingRegisters, readInputRegisters, writeSingleCoil,
    writeSingleRegister, readExceptionStatus, diagnostic, getCommEventCounter, getCommEventLog,
    writeMultipleCoils, writeMultipleRegisters, reportServerId, readFileRecord, writeFileRecord,
    maskWriteRegister, readWriteMultipleRegisters, readFifoQueue, readDeviceIdentification]

theorem mem_all (c : FunctionCode) : c ∈ all := by
  cases c <;> decide

/-- The code of a function on the wire. -/
def toByte : FunctionCode → UInt8
  | readCoils => 1
  | readDiscreteInputs => 2
  | readHoldingRegisters => 3
  | readInputRegisters => 4
  | writeSingleCoil => 5
  | writeSingleRegister => 6
  | readExceptionStatus => 7
  | diagnostic => 8
  | getCommEventCounter => 11
  | getCommEventLog => 12
  | writeMultipleCoils => 15
  | writeMultipleRegisters => 16
  | reportServerId => 17
  | readFileRecord => 20
  | writeFileRecord => 21
  | maskWriteRegister => 22
  | readWriteMultipleRegisters => 23
  | readFifoQueue => 24
  | readDeviceIdentification => 43

/-- The function with code `b`, if that code is assigned. -/
def ofByte? (b : UInt8) : Option FunctionCode :=
  all.find? fun c => c.toByte = b

@[simp] theorem ofByte?_toByte (c : FunctionCode) : ofByte? c.toByte = some c := by
  cases c <;> rfl

theorem ofByte?_eq_some_iff {b : UInt8} {c : FunctionCode} :
    ofByte? b = some c ↔ c.toByte = b := by
  constructor
  · intro h
    simpa using List.find?_some h
  · rintro rfl
    exact ofByte?_toByte c

theorem toByte_inj {c d : FunctionCode} : c.toByte = d.toByte ↔ c = d := by
  constructor
  · intro h
    have := ofByte?_toByte d
    rw [← h, ofByte?_toByte] at this
    exact Option.some.inj this
  · rintro rfl
    rfl

/-- The name of a function in messages. -/
def name : FunctionCode → String
  | readCoils => "ReadCoils"
  | readDiscreteInputs => "ReadDiscreteInputs"
  | readHoldingRegisters => "ReadMultipleHoldingRegisters"
  | readInputRegisters => "ReadInputRegisters"
  | writeSingleCoil => "WriteSingleCoil"
  | writeSingleRegister => "WriteSingleHoldingRegister"
  | readExceptionStatus => "ReadExceptionStatus"
  | diagnostic => "Diagnostic"
  | getCommEventCounter => "GetCommEventCounter"
  | getCommEventLog => "GetCommEventLog"
  | writeMultipleCoils => "WriteMultipleCoils"
  | writeMultipleRegisters => "WriteMultipleHoldingRegisters"
  | reportServerId => "ReportServerID"
  | readFileRecord => "ReadFileRecord"
  | writeFileRecord => "WriteFileRecord"
  | maskWriteRegister => "MaskWriteRegister"
  | readWriteMultipleRegisters => "ReadWriteMultipleRegisters"
  | readFifoQueue => "ReadFIFOQueue"
  | readDeviceIdentification => "ReadDeviceIdentification"

/-- The function of a given name. -/
def ofName? (s : String) : Option FunctionCode :=
  all.find? fun c => c.name = s

/-- What is said of a byte that is not the code of a function. -/
def unassignedMessage (b : UInt8) : String :=
  s!"No discriminant in enum `FunctionCode` matches the value `{b}`"

/-- The least payload of a request, in bytes. -/
def requestMinimum : FunctionCode → Nat
  | readCoils | readDiscreteInputs | readHoldingRegisters | readInputRegisters
  | writeSingleCoil | writeSingleRegister | diagnostic => 4
  | readExceptionStatus | getCommEventCounter | getCommEventLog | reportServerId => 0
  | writeMultipleCoils | maskWriteRegister => 6
  | writeMultipleRegisters => 7
  | readFileRecord => 8
  | writeFileRecord => 10
  | readWriteMultipleRegisters => 11
  | readFifoQueue | readDeviceIdentification => 2

/-- The least payload of a response that is not an exception, in bytes. -/
def responseMinimum : FunctionCode → Nat
  | readCoils | readDiscreteInputs | readDeviceIdentification => 2
  | readHoldingRegisters | readInputRegisters | reportServerId | readFileRecord
  | readWriteMultipleRegisters => 3
  | writeSingleCoil | writeSingleRegister | diagnostic | getCommEventCounter
  | writeMultipleCoils | writeMultipleRegisters => 4
  | readExceptionStatus => 1
  | maskWriteRegister | readFifoQueue => 6
  | getCommEventLog => 8
  | writeFileRecord => 10

end FunctionCode

end Modbus
