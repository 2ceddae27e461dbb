import Modbus.DecodeError
import Modbus.Wire.Word

/-!
# Registers on the wire

Registers travel as words, one after the other. `Registers.pack` writes them; `Cursor.registers`
reads a given number of them from a place in a byte string and stops behind the last. The place may
lie past the end of the bytes, where there is nothing left to read.
-/

namespace Modbus

/-- The bytes that carry `values`, two for each. -/
def Registers.pack (values : List UInt16) : List UInt8 :=
  values.flatMap Word.bytes

theorem Registers.length_pack (values : List UInt16) :
    (pack values).length = 2 * values.length := by
  induction values with
  | nil => rfl
  | cons v vs ih => simp_all [pack]; omega

/-- A place in a byte string: how many bytes lie before it, and which lie behind it. -/
structure Cursor where
  position : Nat
  rest : List UInt8
  deriving DecidableEq, Repr

namespace Cursor

/-- The place `position` bytes into `data`; past its end nothing is left to read. -/
def into (data : List UInt8) (position : Nat) : Cursor :=
  ⟨position, data.drop position⟩

/-- The next word and the place behind it, if two bytes are left. -/
def word? : Cursor → Option (UInt16 × Cursor)
  | ⟨position, hi :: lo :: rest⟩ => some (Word.ofBytes hi lo, ⟨position + 2, rest⟩)
  | _ => none

/-- Reads `missing` more registers after the ones already `done`, which are kept last one first. -/
def registersFrom (done : List UInt16) :
    (missing : Nat) → Cursor → Except DecodeError (List UInt16 × Cursor)
  | 0, c => .ok (done.reverse, c)
  | missing + 1, c =>
    match c.word? with
    | some (w, c) => registersFrom (w :: done) missing c
    | none => .error (.missingRegister done.length (done.length + (missing + 1)))

/-- Reads `count` registers. When the bytes run out, the failure names the first register that is
not wholly there. -/
def registers (count : Nat) (c : Cursor) : Except DecodeError (List UInt16 × Cursor) :=
  registersFrom [] count c

end Cursor

end Modbus
