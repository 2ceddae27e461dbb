import Modbus.Proofs.Coils
import Modbus.Proofs.Registers
import Modbus.Table

/-!
# Bytes that carry values

`Table.Carries` is the wire format of the elements of a table, told from the bytes: which bit or
which two bytes belong to an element. It leaves the unused bits of a last byte open, so that what a
server sends need not be what would be written here. Reading gets the values back from any bytes
that carry them, and what is written carries what was to be written.
-/

namespace Modbus

/-- The bytes carry the values of consecutive elements of a table: of bits, eight to a byte from the
least significant one on, with nothing said of the bits behind the last element; of registers, two
bytes for each, the more significant one first. -/
def Table.Carries (t : Table) (values : List UInt16) (bytes : List UInt8) : Prop :=
  if t.isBit then
    bytes.length = (values.length + 7) / 8 ∧
      ∀ i value, values[i]? = some value →
        ∃ b, bytes[i / 8]? = some b ∧ value = (b.toBitVec.getLsbD (i % 8)).toUInt16
  else
    bytes.length = 2 * values.length ∧
      ∀ i value, values[i]? = some value →
        ∃ hi lo, bytes[2 * i]? = some hi ∧ bytes[2 * i + 1]? = some lo ∧
          value.toNat = 256 * hi.toNat + lo.toNat

namespace Table

variable {t : Table} {values : List UInt16} {bytes : List UInt8}

theorem carries_bits_iff (h : t.isBit) :
    t.Carries values bytes ↔
      bytes.length = (values.length + 7) / 8 ∧
        ∀ i value, values[i]? = some value →
          ∃ b, bytes[i / 8]? = some b ∧ value = (b.toBitVec.getLsbD (i % 8)).toUInt16 := by
  rw [Carries, if_pos h]

theorem carries_registers_iff (h : ¬ t.isBit) :
    t.Carries values bytes ↔
      bytes.length = 2 * values.length ∧
        ∀ i value, values[i]? = some value →
          ∃ hi lo, bytes[2 * i]? = some hi ∧ bytes[2 * i + 1]? = some lo ∧
            value.toNat = 256 * hi.toNat + lo.toNat := by
  rw [Carries, if_neg h]

/-! ## Reading -/

theorem unpack_coils_of_carries (ht : t.isBit) (h : t.Carries values bytes) :
    Coils.unpack bytes values.length = values := by
  obtain ⟨-, hvalues⟩ := (carries_bits_iff ht).mp h
  apply List.ext_getElem?
  intro i
  by_cases hi : i < values.length
  · obtain ⟨b, hb, hvalue⟩ := hvalues i _ (List.getElem?_eq_getElem hi)
    rw [Coils.getElem?_unpack bytes hi, hb, List.getElem?_eq_getElem hi, hvalue]
    rfl
  · rw [List.getElem?_eq_none (by simpa using hi), List.getElem?_eq_none (by simpa using hi)]

theorem unpack_registers_of_carries (ht : ¬ t.isBit) (h : t.Carries values bytes) :
    Registers.unpack bytes = values := by
  obtain ⟨hlength, hvalues⟩ := (carries_registers_iff ht).mp h
  have hunpack : (Registers.unpack bytes).length = values.length := by
    rw [Registers.length_unpack]
    omega
  apply List.ext_getElem?
  intro i
  by_cases hi : i < values.length
  · obtain ⟨hi', lo, hhi, hlo, hvalue⟩ := hvalues i _ (List.getElem?_eq_getElem hi)
    have hword : Word.ofBytes hi' lo = values[i] := by
      apply UInt16.toNat_inj.mp
      rw [Word.toNat_ofBytes, hvalue]
    rw [Registers.getElem?_unpack, hhi, hlo, List.getElem?_eq_getElem hi, ← hword]
    rfl
  · rw [List.getElem?_eq_none (by omega), List.getElem?_eq_none (by omega)]

/-! ## Writing -/

/-- Packed coils carry the states of their values. -/
theorem carries_pack_coils (ht : t.isBit) (values : List UInt16) :
    t.Carries ((values.map (· != 0)).map Bool.toUInt16) (Coils.pack values) := by
  refine (carries_bits_iff ht).mpr ⟨?_, fun i value hvalue => ?_⟩
  · rw [Coils.length_pack, Coils.byteCount, List.length_map, List.length_map]
  · rw [List.getElem?_map] at hvalue
    obtain ⟨on, hon, rfl⟩ := Option.map_eq_some_iff.mp hvalue
    have hi : i < values.length := by
      have := (List.getElem?_eq_some_iff.mp hon).1
      rwa [List.length_map] at this
    obtain ⟨b, hb, hbit⟩ := Coils.exists_byte_pack values (i := i) (by
      rw [Coils.byteCount]
      omega)
    rw [List.getD_eq_getElem?_getD, hon] at hbit
    exact ⟨b, hb, by rw [hbit]; rfl⟩

theorem carries_pack_registers (ht : ¬ t.isBit) (values : List UInt16) :
    t.Carries values (Registers.pack values) := by
  refine (carries_registers_iff ht).mpr ⟨Registers.length_pack values, fun i value hvalue => ?_⟩
  rw [← Registers.unpack_pack values, Registers.getElem?_unpack] at hvalue
  obtain ⟨hi, hhi, hword⟩ := Option.bind_eq_some_iff.mp hvalue
  obtain ⟨lo, hlo, rfl⟩ := Option.map_eq_some_iff.mp hword
  exact ⟨hi, lo, hhi, hlo, Word.toNat_ofBytes hi lo⟩

end Table

end Modbus
