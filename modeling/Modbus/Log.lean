import Modbus.DecodeError
import Modbus.ExceptionCode
import Modbus.Failure
import Modbus.Text.Milliseconds

/-!
# The log

What happens in a session leaves a trail of events. `Event` says what can happen, `Event.line` how
it is written, and `Logged α` is a result together with the events on the way to it, in order.
-/

namespace Modbus

/-! ## Events -/

/-- The events that are logged. -/
inductive Event
  /-- A request has not been sent. -/
  | sendFailed (reason : SendError)
  /-- A reply that was already complete has been told something. -/
  | lateUpdate (slave : UInt8)
  /-- A server has refused the request with function code `code`. -/
  | exceptionReceived (code : UInt8) (reason : Option ExceptionCode)
  /-- The response for function code `code` could not be decoded. -/
  | decodingFailed (code : UInt8) (reason : DecodeError)
  /-- No response has come within `ms` milliseconds. -/
  | timedOut (slave : UInt8) (ms : Nat)
  /-- The response timeout is now another. -/
  | timeoutChanged (before after : Int)
  deriving DecidableEq, Repr

/-- What is said of an exception, with its reason where that is a defined one. -/
def exceptionMessage : Option ExceptionCode → String
  | some reason => "Modbus Exception Response: " ++ reason.name ++ "."
  | none => "Modbus Exception Response."

/-- The failure that a request ends in when the server answers it with an exception. -/
def Failure.exception (reason : Option ExceptionCode) : Failure :=
  ⟨.protocol, exceptionMessage reason⟩

/-- How much an event matters. -/
inductive Level
  | warn
  | debug
  deriving DecidableEq, Repr

/-- The name of a level in the log. -/
def Level.name : Level → String
  | warn => "WARN"
  | debug => "DEBUG"

namespace Event

/-- A request that is not sent is worth a warning, all else is detail. -/
def level : Event → Level
  | sendFailed _ => .warn
  | _ => .debug

/-- The wording of an event. -/
def text : Event → String
  | sendFailed reason => reason.warning
  | lateUpdate slave => s!"Ignoring update of already completed reply from slave {slave}"
  | exceptionReceived code reason =>
    exceptionMessage reason ++ " (function code " ++ Hex.byte code ++ ")"
  | decodingFailed code reason =>
    "Invalid response for function code " ++ Hex.byte code ++ ": " ++ reason.message
  | timedOut slave ms =>
    s!"Reply from slave {slave} timed out after " ++ Milliseconds.text ms
  | timeoutChanged before after => s!"Response timeout changed from {before} ms to {after} ms"

/-- The line of an event in the log. -/
def line (e : Event) : String :=
  e.level.name ++ ": " ++ e.text

end Event

/-! ## Results with a log -/

/-- A result, and the events on the way to it. -/
structure Logged (α : Type) where
  value : α
  log : List Event
  deriving DecidableEq, Repr

namespace Logged

variable {α β : Type}

instance : Monad Logged where
  pure a := ⟨a, []⟩
  bind x f :=
    let y := f x.value
    ⟨y.value, x.log ++ y.log⟩

/-- Logs an event. -/
def emit (e : Event) : Logged Unit := ⟨(), [e]⟩

@[simp] theorem value_pure (a : α) : (pure a : Logged α).value = a := rfl

@[simp] theorem log_pure (a : α) : (pure a : Logged α).log = [] := rfl

@[simp] theorem value_bind (x : Logged α) (f : α → Logged β) :
    (x >>= f).value = (f x.value).value := rfl

@[simp] theorem log_bind (x : Logged α) (f : α → Logged β) :
    (x >>= f).log = x.log ++ (f x.value).log := rfl

@[simp] theorem value_map (f : α → β) (x : Logged α) : (f <$> x).value = f x.value := rfl

@[simp] theorem log_map (f : α → β) (x : Logged α) : (f <$> x).log = x.log := by
  simp [Functor.map]

@[ext] theorem ext {x y : Logged α} (hv : x.value = y.value) (hl : x.log = y.log) : x = y := by
  cases x
  cases y
  simp_all

instance : LawfulMonad Logged :=
  LawfulMonad.mk' Logged
    (fun x => by apply ext <;> simp)
    (fun a f => by apply ext <;> simp)
    (fun x f g => by apply ext <;> simp [List.append_assoc])

end Logged

end Modbus
