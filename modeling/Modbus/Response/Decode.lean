import Modbus.Access
import Modbus.Datum
import Modbus.Request.OfUnit
import Modbus.Response.Basic
import Modbus.Response.Content

/-!
# Decoding responses

`Access.decode` turns the response to a data access into its `Content`. It first checks that the
response answers that access at all (`Response.checkAnswers`), then that the payload has the layout
of the access (`Access.content`). There are two layouts: a byte count and that many bytes
(`countedBytes`), for what has been read, and two words (`twoWords`), for what has been written.

The content is complete before any of it is recorded, so `Access.decodeInto` leaves the unit alone
when a response cannot be decoded. Nor does the unit have a say in whether it can be.
-/

namespace Modbus

/-- A response answers a function when it is well formed, no exception, and has its code. -/
def Response.checkAnswers (r : Response) (expected : FunctionCode) : Except DecodeError Unit :=
  if ¬ r.IsValid then .error .malformed
  else if r.IsException then .error .exception
  else if r.code ≠ expected.toByte then .error (.unexpectedCode expected r.code)
  else .ok ()

namespace Access

/-- The bytes of a payload that opens with their number. -/
def countedBytes (a : Access) (data : List UInt8) : Except DecodeError (List UInt8) :=
  if data.length < a.code.responseMinimum then
    .error (.tooShort a.code data.length a.code.responseMinimum)
  else
    match data with
    | [] => .ok []
    | count :: rest =>
      if rest.length = count.toNat then .ok rest
      else .error (.byteCountMismatch count.toNat rest.length)

/-- The registers of a payload that opens with the number of their bytes. -/
def countedRegisters (a : Access) (data : List UInt8) : Except DecodeError (List UInt16) := do
  let bytes ← a.countedBytes data
  if bytes.length % 2 ≠ 0 then .error (.partialRegister bytes.length)
  else
    let (values, _) ← (Cursor.into bytes 0).registers (bytes.length / 2)
    .ok values

/-- The two words that a payload of four bytes is. -/
def twoWords (a : Access) : List UInt8 → Except DecodeError (UInt16 × UInt16)
  | [a₁, a₀, b₁, b₀] => .ok (Word.ofBytes a₁ a₀, Word.ofBytes b₁ b₀)
  | data => .error (.wrongSize a.code data.length a.code.responseMinimum)

/-- What the payload of a response says. -/
def content (a : Access) (data : List UInt8) : Except DecodeError Content :=
  match a with
  | readCoils | readDiscreteInputs => do
    let packed ← a.countedBytes data
    .ok (.bits packed)
  | readHoldingRegisters | readInputRegisters | readWriteMultipleRegisters => do
    let values ← a.countedRegisters data
    .ok (.registers a.table values)
  | writeSingleCoil => do
    let (address, word) ← a.twoWords data
    let on ← Datum.coilOfWord word
    .ok (.coil address on)
  | writeSingleRegister => do
    let (address, value) ← a.twoWords data
    .ok (.register address value)
  | writeMultipleCoils => do
    let (start, count) ← a.twoWords data
    .ok (.coilRange start count)
  | writeMultipleRegisters => do
    let (start, count) ← a.twoWords data
    if 1 ≤ count.toNat ∧ count.toNat ≤ registerWriteLimit then .ok (.registerRange start count)
    else .error (.unwritableCount count)

/-- What a response says, if it answers the data access `a`. -/
def decode (a : Access) (r : Response) : Except DecodeError Content := do
  r.checkAnswers a.code
  a.content r.data

/-- Decodes a response into a unit, if there is one to hold the content: whether that was possible,
and the unit afterwards. -/
def decodeInto (a : Access) (r : Response) (unit : Option DataUnit) :
    Except DecodeError Unit × Option DataUnit :=
  match a.decode r with
  | .ok content => (.ok (), unit.map content.writeTo)
  | .error reason => (.error reason, unit)

end Access

end Modbus
