/-!
# Exception codes

A server that cannot do what a request asks says why in one byte, the exception code.
`toByte` and `ofByte?` are the wire form of the defined codes (`ofByte?_eq_some_iff`).
-/

namespace Modbus

/-- The defined reasons for which a server refuses a request. -/
inductive ExceptionCode
  | illegalFunction
  | illegalDataAddress
  | illegalDataValue
  | serverDeviceFailure
  | acknowledge
  | serverDeviceBusy
  | memoryParityError
  | gatewayPathUnavailable
  | gatewayTargetDeviceFailedToRespond
  deriving DecidableEq, Repr

namespace ExceptionCode

/-- Every defined reason, by rising code. -/
def all : List ExceptionCode :=
  [illegalFunction, illegalDataAddress, illegalDataValue, serverDeviceFailure, acknowledge,
    serverDeviceBusy, memoryParityError, gatewayPathUnavailable,
    gatewayTargetDeviceFailedToRespond]

/-- The code of a reason on the wire. -/
def toByte : ExceptionCode → UInt8
  | illegalFunction => 1
  | illegalDataAddress => 2
  | illegalDataValue => 3
  | serverDeviceFailure => 4
  | acknowledge => 5
  | serverDeviceBusy => 6
  | memoryParityError => 8
  | gatewayPathUnavailable => 10
  | gatewayTargetDeviceFailedToRespond => 11

/-- The reason with code `b`, if that code is defined. -/
def ofByte? (b : UInt8) : Option ExceptionCode :=
  all.find? fun c => c.toByte = b

@[simp] theorem ofByte?_toByte (c : ExceptionCode) : ofByte? c.toByte = some c := by
  cases c <;> rfl

theorem ofByte?_eq_some_iff {b : UInt8} {c : ExceptionCode} :
    ofByte? b = some c ↔ c.toByte = b := by
  constructor
  · intro h
    simpa using List.find?_some h
  · rintro rfl
    exact ofByte?_toByte c

/-- The name of a reason in messages. -/
def name : ExceptionCode → String
  | illegalFunction => "IllegalFunction"
  | illegalDataAddress => "IllegalDataAddress"
  | illegalDataValue => "IllegalDataValue"
  | serverDeviceFailure => "ServerDeviceFailure"
  | acknowledge => "Acknowledge"
  | serverDeviceBusy => "ServerDeviceBusy"
  | memoryParityError => "MemoryParityError"
  | gatewayPathUnavailable => "GatewayPathUnavailable"
  | gatewayTargetDeviceFailedToRespond => "GatewayTargetDeviceFailedToRespond"

/-- The reason of a given name. -/
def ofName? (s : String) : Option ExceptionCode :=
  all.find? fun c => c.name = s

/-- What is said of a byte that is not an exception code. -/
def unassignedMessage (b : UInt8) : String :=
  s!"No discriminant in enum `ExceptionCode` matches the value `{b}`"

end ExceptionCode

end Modbus
