import Modbus.ExceptionCode
import Modbus.Request.Basic

/-!
# Responses

A response is a byte and a payload. The byte is the function code of the request it answers, with
the top bit set if the response is an exception; `code` and `IsException` are the two parts of it.
An exception's payload is the exception code.

Any bytes but none make a response, and every response can be written back to them: whether the
payload makes sense is for decoding to find out.
-/

namespace Modbus

/-- What a server answers. `rawCode` is the first byte as received. -/
structure Response where
  rawCode : UInt8
  data : List UInt8
  deriving DecidableEq, Repr

namespace Response

/-- The exception by which a server refuses a request with function code `code`. -/
def exception (code : UInt8) (reason : ExceptionCode) : Response :=
  ⟨code % 0x80 + 0x80, [reason.toByte]⟩

/-- The function code, without the exception bit. -/
def code (r : Response) : UInt8 := r.rawCode % 0x80

/-- The function that is answered, if its code is assigned. -/
def function? (r : Response) : Option FunctionCode :=
  FunctionCode.ofByte? r.code

/-- The exception bit is set. -/
def IsException (r : Response) : Prop := 0x80 ≤ r.rawCode

instance (r : Response) : Decidable r.IsException :=
  inferInstanceAs (Decidable (_ ≤ _))

/-- The reason that an exception gives, if it gives a defined one. -/
def exceptionCode? (r : Response) : Option ExceptionCode :=
  if r.IsException then r.data.head?.bind ExceptionCode.ofByte? else none

/-- A response keeps the bounds of its kind: its code is not zero, its payload is not too long, and
an exception has exactly one byte of it. -/
def IsValid (r : Response) : Prop :=
  r.code ≠ 0 ∧ r.data.length ≤ maxPayload ∧ (r.IsException → r.data.length = 1)

instance (r : Response) : Decidable r.IsValid :=
  inferInstanceAs (Decidable (_ ∧ _ ∧ (_ → _)))

/-- The least payload that the response can have, if its function has one. -/
def minimum? (r : Response) : Option Nat :=
  if r.IsException then some 1 else r.function?.map FunctionCode.responseMinimum

/-- The bytes of a response. -/
def toBytes (r : Response) : List UInt8 := r.rawCode :: r.data

/-- The response that bytes make. -/
def ofBytes : List UInt8 → Except PduError Response
  | [] => .error .emptyResponse
  | rawCode :: data => .ok ⟨rawCode, data⟩

@[simp] theorem ofBytes_toBytes (r : Response) : ofBytes r.toBytes = .ok r := rfl

theorem toBytes_of_ofBytes {bytes : List UInt8} {r : Response} (h : ofBytes bytes = .ok r) :
    r.toBytes = bytes := by
  cases bytes with
  | nil => cases h
  | cons b bs => cases h; rfl

end Response

end Modbus
