import Modbus.DecodeError

/-!
# Single data as words

In a request or response about one element, a register is a word of its own value and a coil is one
of two words: `0xFF00` for "on" and `0x0000` for "off". `coilOfWord` accepts these two only.
-/

namespace Modbus

/-- One element of a table. -/
inductive Datum
  | coil (on : Bool)
  | register (value : UInt16)
  deriving DecidableEq, Repr

namespace Datum

/-- The word that stands for an element on the wire. -/
def word : Datum → UInt16
  | coil true => 0xFF00
  | coil false => 0x0000
  | register value => value

/-- The state of the coil that a word stands for. -/
def coilOfWord (w : UInt16) : Except DecodeError Bool :=
  if w = 0xFF00 then .ok true
  else if w = 0x0000 then .ok false
  else .error (.notACoil w)

theorem coilOfWord_eq_ok_iff {w : UInt16} {on : Bool} :
    coilOfWord w = .ok on ↔ w = (coil on).word := by
  unfold coilOfWord word
  cases on <;> grind

end Datum

end Modbus
