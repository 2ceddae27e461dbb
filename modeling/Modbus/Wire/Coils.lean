import Modbus.Values

/-!
# Coil states on the wire

Coil states travel eight to a byte, the least significant bit first: state `i` is bit `i % 8` of
byte `i / 8`. The unused bits of the last byte are written as zeros and skipped on reading.

Outside the wire a coil state is a value that is zero when the coil is off. `pack` takes any
non-zero value for "on", `unpack` yields `0` and `1` only.
-/

namespace Modbus.Coils

/-- How many bytes carry `count` coil states. -/
def byteCount (count : Nat) : Nat := (count + 7) / 8

/-- The byte with the given bits, least significant first. Bits past the eighth are lost and
missing ones are zero. -/
def byteOfBits (bits : List Bool) : UInt8 :=
  UInt8.ofBitVec ((BitVec.ofBoolListLE bits).setWidth 8)

/-- The eight bits of a byte, least significant first. -/
def bitsOfByte (b : UInt8) : List Bool :=
  (List.range 8).map b.toBitVec.getLsbD

@[simp] theorem length_bitsOfByte (b : UInt8) : (bitsOfByte b).length = 8 := by
  simp [bitsOfByte]

theorem getElem?_bitsOfByte (b : UInt8) {k : Nat} (hk : k < 8) :
    (bitsOfByte b)[k]? = some (b.toBitVec.getLsbD k) := by
  simp [bitsOfByte, hk]

theorem getLsbD_byteOfBits (bits : List Bool) {k : Nat} (hk : k < 8) :
    (byteOfBits bits).toBitVec.getLsbD k = bits.getD k false := by
  simp [byteOfBits, hk]

/-- Packs `count` more bytes of `bits` behind the bytes already `done`, which are kept last byte
first. -/
def packFrom (done : List UInt8) : (count : Nat) → (bits : List Bool) → List UInt8
  | 0, _ => done.reverse
  | count + 1, bits => packFrom (byteOfBits (bits.take 8) :: done) count (bits.drop 8)

theorem packFrom_eq_append (done : List UInt8) (count : Nat) (bits : List Bool) :
    packFrom done count bits = done.reverse ++ packFrom [] count bits := by
  induction count generalizing done bits with
  | zero => simp [packFrom]
  | succ count ih =>
    rw [packFrom, packFrom, ih, ih [byteOfBits (bits.take 8)]]
    simp

theorem packFrom_succ (count : Nat) (bits : List Bool) :
    packFrom [] (count + 1) bits = byteOfBits (bits.take 8) :: packFrom [] count (bits.drop 8) := by
  rw [packFrom, packFrom_eq_append]
  rfl

/-- The bytes that carry the states `values`, where any value but zero is "on". -/
def pack (values : List UInt16) : List UInt8 :=
  packFrom [] (byteCount values.length) (values.map (· != 0))

/-- The first `count` coil states that `data` carries, as zeros and ones; states that `data` is too
short for are off. -/
def unpack (data : List UInt8) (count : Nat) : List UInt16 :=
  Values.resize count (data.flatMap fun b => (bitsOfByte b).map Bool.toUInt16)

@[simp] theorem length_packFrom (count : Nat) (bits : List Bool) :
    (packFrom [] count bits).length = count := by
  induction count generalizing bits with
  | zero => rfl
  | succ count ih => rw [packFrom_succ, List.length_cons, ih]

@[simp] theorem length_pack (values : List UInt16) :
    (pack values).length = byteCount values.length := by
  simp [pack]

@[simp] theorem length_unpack (data : List UInt8) (count : Nat) :
    (unpack data count).length = count := by
  simp [unpack]

end Modbus.Coils
