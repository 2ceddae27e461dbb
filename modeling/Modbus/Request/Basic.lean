import Modbus.FunctionCode

/-!
# Requests

A request is a function code byte and a payload. As bytes it is the one followed by the other;
`toBytes` writes a valid request only, `ofBytes` reads any bytes but none (`ofBytes_toBytes`).
-/

namespace Modbus

/-- The most bytes that the payload of a request or response can have. -/
def maxPayload : Nat := 252

/-- Why a request or response cannot be turned into bytes or back. -/
inductive PduError
  | invalidRequest
  | emptyRequest
  | emptyResponse
  deriving DecidableEq, Repr

/-- The wording of a failure. -/
def PduError.message : PduError → String
  | invalidRequest => "Refusing to serialize an invalid request"
  | emptyRequest => "Not enough bytes to form a request PDU"
  | emptyResponse => "Not enough bytes to form a response PDU"

/-- What a client asks of a server. The code may be one that no function has. -/
structure Request where
  code : UInt8
  data : List UInt8
  deriving DecidableEq, Repr

namespace Request

/-- The empty request. It stands for what cannot be asked in one request, and is never valid. -/
def invalid : Request := ⟨0, []⟩

/-- The function that is asked for, if its code is assigned. -/
def function? (q : Request) : Option FunctionCode :=
  FunctionCode.ofByte? q.code

/-- The least payload that the request can have. -/
def minimum (q : Request) : Nat :=
  match q.function? with
  | some c => c.requestMinimum
  | none => 0

/-- A request can be sent when its code lies in the public range and its payload is neither too
long for any function nor too short for its own. -/
def IsValid (q : Request) : Prop :=
  0 < q.code ∧ q.code < 0x80 ∧ q.minimum ≤ q.data.length ∧ q.data.length ≤ maxPayload

instance (q : Request) : Decidable q.IsValid :=
  inferInstanceAs (Decidable (_ ∧ _ ∧ _ ∧ _))

theorem not_isValid_invalid : ¬ invalid.IsValid := by
  decide

/-- The bytes of a valid request. -/
def toBytes (q : Request) : Except PduError (List UInt8) :=
  if q.IsValid then .ok (q.code :: q.data) else .error .invalidRequest

/-- The request that bytes make, valid or not. -/
def ofBytes : List UInt8 → Except PduError Request
  | [] => .error .emptyRequest
  | code :: data => .ok ⟨code, data⟩

theorem toBytes_of_isValid {q : Request} (h : q.IsValid) : q.toBytes = .ok (q.code :: q.data) :=
  if_pos h

theorem ofBytes_toBytes {q : Request} {bytes : List UInt8} (h : q.toBytes = .ok bytes) :
    ofBytes bytes = .ok q := by
  unfold toBytes at h
  split at h
  · cases h
    rfl
  · cases h

theorem toBytes_of_ofBytes {q : Request} {bytes : List UInt8} (h : ofBytes bytes = .ok q)
    (hvalid : q.IsValid) : q.toBytes = .ok bytes := by
  cases bytes with
  | nil => cases h
  | cons code data =>
    cases h
    exact toBytes_of_isValid hvalid

end Request

end Modbus
