import Modbus.FunctionCode
import Modbus.Text.Hex

/-!
# Why bytes cannot be decoded

Each way in which received bytes can fail to make sense is a constructor of `DecodeError`;
`message` is its wording.
-/

namespace Modbus

/-- The reasons for which bytes from the wire cannot be decoded. -/
inductive DecodeError
  /-- The response breaks the bounds that every response keeps. -/
  | malformed
  /-- The response is an exception and so carries no data. -/
  | exception
  /-- The response is for the function with code `got`. -/
  | unexpectedCode (expected : FunctionCode) (got : UInt8)
  /-- The payload has `size` bytes, fewer than the least for its function. -/
  | tooShort (code : FunctionCode) (size minimum : Nat)
  /-- The payload has `size` bytes where its function has exactly `expected`. -/
  | wrongSize (code : FunctionCode) (size expected : Nat)
  /-- The byte count says `count` where `available` bytes follow it. -/
  | byteCountMismatch (count available : Nat)
  /-- The byte count is odd and so ends within a register. -/
  | partialRegister (count : Nat)
  /-- The bytes end before the register with this index is complete. -/
  | missingRegister (index total : Nat)
  /-- The word stands for neither state of a coil. -/
  | notACoil (word : UInt16)
  /-- No request writes this many registers. -/
  | unwritableCount (count : UInt16)
  deriving DecidableEq, Repr

/-- The wording of a decoding failure. -/
def DecodeError.message : DecodeError → String
  | malformed => "Response PDU is malformed"
  | exception => "Response is an exception"
  | unexpectedCode expected got =>
    "Expected function code " ++ expected.name ++ ", got " ++ Hex.byte got
  | tooShort code size minimum =>
    code.name ++ s!" response too short, {size} bytes but at least {minimum} expected"
  | wrongSize code size expected =>
    code.name ++ s!" response has {size} bytes, {expected} expected"
  | byteCountMismatch count available =>
    s!"Byte count {count} doesn't match the {available} bytes available"
  | partialRegister count => s!"Byte count {count} doesn't hold whole registers"
  | missingRegister index total => s!"Register {index} of {total} is missing"
  | notACoil word =>
    Hex.word word ++ " can't be decoded to a coil, only valid values are 0xFF00 and 0x0000"
  | unwritableCount count => s!"{count} registers can't be written in one request"

end Modbus
