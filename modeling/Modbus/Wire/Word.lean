/-!
# Words on the wire

A word travels as two bytes, the more significant one first. `bytes` writes it and `ofBytes`
reads it; each undoes the other (`ofBytes_high_low`, `bytes_ofBytes`).
-/

namespace Modbus.Word

/-- The more significant byte of a word. -/
def high (w : UInt16) : UInt8 := UInt8.ofNat (w.toNat / 256)

/-- The less significant byte of a word. -/
def low (w : UInt16) : UInt8 := UInt8.ofNat (w.toNat % 256)

/-- The word that two bytes make, the more significant one first. -/
def ofBytes (hi lo : UInt8) : UInt16 := UInt16.ofNat (256 * hi.toNat + lo.toNat)

/-- The two bytes of a word in the order they travel. -/
def bytes (w : UInt16) : List UInt8 := [high w, low w]

@[simp] theorem length_bytes (w : UInt16) : (bytes w).length = 2 := rfl

theorem toNat_high (w : UInt16) : (high w).toNat = w.toNat / 256 := by
  have := w.toNat_lt
  simp only [high, UInt8.toNat_ofNat']
  omega

theorem toNat_low (w : UInt16) : (low w).toNat = w.toNat % 256 := by
  simp only [low, UInt8.toNat_ofNat']
  omega

theorem toNat_eq_high_low (w : UInt16) : w.toNat = 256 * (high w).toNat + (low w).toNat := by
  rw [toNat_high, toNat_low, Nat.div_add_mod]

theorem toNat_ofBytes (hi lo : UInt8) : (ofBytes hi lo).toNat = 256 * hi.toNat + lo.toNat := by
  have := hi.toNat_lt
  have := lo.toNat_lt
  simp only [ofBytes, UInt16.toNat_ofNat']
  omega

@[simp] theorem ofBytes_high_low (w : UInt16) : ofBytes (high w) (low w) = w := by
  apply UInt16.toNat_inj.mp
  rw [toNat_ofBytes, ← toNat_eq_high_low]

@[simp] theorem high_ofBytes (hi lo : UInt8) : high (ofBytes hi lo) = hi := by
  have := lo.toNat_lt
  apply UInt8.toNat_inj.mp
  rw [toNat_high, toNat_ofBytes]
  omega

@[simp] theorem low_ofBytes (hi lo : UInt8) : low (ofBytes hi lo) = lo := by
  have := lo.toNat_lt
  apply UInt8.toNat_inj.mp
  rw [toNat_low, toNat_ofBytes]
  omega

@[simp] theorem bytes_ofBytes (hi lo : UInt8) : bytes (ofBytes hi lo) = [hi, lo] := by
  simp [bytes]

end Modbus.Word
