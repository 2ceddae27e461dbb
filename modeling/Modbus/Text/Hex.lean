/-!
# Hexadecimal text

Numbers in messages are written in a fixed number of uppercase digits after `0x`: two for a byte,
four for a word. `byte` and `word` are the two widths in use.
-/

namespace Modbus.Hex

/-- The uppercase digit for `n`, meant for `n < 16`. -/
def digit (n : Nat) : Char :=
  if n < 10 then Char.ofNat (0x30 + n) else Char.ofNat (0x37 + n)

/-- The last `width` hexadecimal digits of `n`, most significant first. -/
def digits : (width n : Nat) → List Char
  | 0, _ => []
  | width + 1, n => digits width (n / 16) ++ [digit (n % 16)]

/-- A byte as `0x` and two digits. -/
def byte (b : UInt8) : String :=
  "0x" ++ String.ofList (digits 2 b.toNat)

/-- A word as `0x` and four digits. -/
def word (w : UInt16) : String :=
  "0x" ++ String.ofList (digits 4 w.toNat)

end Modbus.Hex
