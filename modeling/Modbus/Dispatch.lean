import Modbus.Log
import Modbus.Response.Decode

/-!
# Finding the decoder of a response

`Response.process` looks at the function code of a response, without the exception bit. A response
to a data access is decoded by this library, and the extension never hears of it. Every other
response goes to the extension, whatever it looks like, and is rejected if there is none.
-/

namespace Modbus

/-- How the responses to other functions than the data accesses are decoded. -/
structure Extension where
  /-- Judges a response when no unit is there to hold its content. -/
  accepts : Response → Bool
  /-- Judges a response and records its content in a unit. -/
  decode : Response → DataUnit → Bool × DataUnit

namespace Extension

/-- Accepts every response and records nothing. -/
def acceptAll : Extension where
  accepts _ := true
  decode _ u := (true, u)

/-- Rejects every response. -/
def rejectAll : Extension where
  accepts _ := false
  decode _ u := (false, u)

/-- Accepts responses that have a payload, and keeps its bytes as the values of the unit, with the
function code for an address. -/
def keepPayload : Extension where
  accepts r := !r.data.isEmpty
  decode r u :=
    (!r.data.isEmpty, { u with start := r.code.toUInt16, values := r.data.map UInt8.toUInt16 })

/-- Judges a response and records its content in the unit, if there is one. -/
def decodeInto (e : Extension) (r : Response) : Option DataUnit → Bool × Option DataUnit
  | some u => ((e.decode r u).1, some (e.decode r u).2)
  | none => (e.accepts r, none)

end Extension

/-- What has become of a response: whether it could be decoded, the unit afterwards, and how many
times the extension was called. -/
structure Verdict where
  accepted : Bool
  unit : Option DataUnit
  calls : Nat := 0
  deriving DecidableEq, Repr

/-- Decodes a response into the unit, if there is one, by what its function code asks for. -/
def Response.process (r : Response) (extension : Option Extension) (unit : Option DataUnit) :
    Logged Verdict :=
  match Access.ofByte? r.code with
  | some access =>
    match access.decodeInto r unit with
    | (.ok (), unit) => pure { accepted := true, unit }
    | (.error reason, unit) => do
      Logged.emit (.decodingFailed r.code reason)
      pure { accepted := false, unit }
  | none =>
    match extension with
    | some e =>
      let (accepted, unit) := e.decodeInto r unit
      pure { accepted, unit, calls := 1 }
    | none => pure { accepted := false, unit }

end Modbus
