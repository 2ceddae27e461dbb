import Modbus.Wire.Coils

/-!
# Coil states bit by bit

State `i` is bit `i % 8` of byte `i / 8`: `Coils.getElem?_unpack` says so of reading and
`Coils.exists_byte_pack` of writing. Where packing goes on past the last state its bits are zero,
and where unpacking goes on past the last byte its values are.

Bytes are known by their bits (`Coils.eq_of_bitAt?`), so that reading and writing undo each other as
far as they can: what is lost on the way there and back are values other than `0` and `1`, and the
bits past the last state (`Coils.packing_and_unpacking_are_inverse`).
-/

namespace Modbus.Coils

/-! ## Reading -/

theorem getElem?_flatMap_bitsOfByte (data : List UInt8) (i : Nat) :
    (data.flatMap fun b => (bitsOfByte b).map Bool.toUInt16)[i]? =
      data[i / 8]?.map fun b => (b.toBitVec.getLsbD (i % 8)).toUInt16 := by
  induction data generalizing i with
  | nil => simp
  | cons b data ih =>
    rw [List.flatMap_cons, List.getElem?_append, List.length_map, length_bitsOfByte]
    split
    · rename_i hi
      have hdiv : i / 8 = 0 := by omega
      have hmod : i % 8 = i := by omega
      rw [List.getElem?_map, getElem?_bitsOfByte b hi, hdiv, hmod]
      rfl
    · rename_i hi
      have hdiv : i / 8 = (i - 8) / 8 + 1 := by omega
      have hmod : i % 8 = (i - 8) % 8 := by omega
      rw [ih, hdiv, hmod, List.getElem?_cons_succ]

/-- Place `i` of what is read holds bit `i % 8` of byte `i / 8`. -/
theorem getElem?_unpack (data : List UInt8) {count i : Nat} (hi : i < count) :
    (unpack data count)[i]? =
      some ((data[i / 8]?.map fun b => (b.toBitVec.getLsbD (i % 8)).toUInt16).getD 0) := by
  rw [unpack, Values.getElem?_resize, if_pos hi, getElem?_flatMap_bitsOfByte]

/-! ## Writing -/

theorem getElem?_packFrom (count : Nat) (bits : List Bool) {k : Nat} (hk : k < count) :
    (packFrom [] count bits)[k]? = some (byteOfBits ((bits.drop (8 * k)).take 8)) := by
  induction count generalizing bits k with
  | zero => omega
  | succ count ih =>
    rw [packFrom_succ]
    cases k with
    | zero => rfl
    | succ k =>
      rw [List.getElem?_cons_succ, ih (bits.drop 8) (by omega), List.drop_drop]
      congr 4
      omega

/-- Bit `i % 8` of byte `i / 8` of what is written is set if state `i` is on; past the last state
no bit is. -/
theorem exists_byte_pack (values : List UInt16) {i : Nat} (hi : i < 8 * byteCount values.length) :
    ∃ b, (pack values)[i / 8]? = some b ∧
      b.toBitVec.getLsbD (i % 8) = (values.map (· != 0)).getD i false := by
  have hk : i / 8 < byteCount values.length := by omega
  have hbit : i % 8 < 8 := by omega
  refine ⟨_, getElem?_packFrom _ _ hk, ?_⟩
  have hi' : 8 * (i / 8) + i % 8 = i := by omega
  rw [getLsbD_byteOfBits _ hbit, List.getD_eq_getElem?_getD, List.getD_eq_getElem?_getD,
    List.getElem?_take_of_lt hbit, List.getElem?_drop, hi']

/-! ## Bits and their places -/

/-- The bit at place `i`, which is bit `i % 8` of byte `i / 8`, if there is such a byte. -/
def bitAt? (bytes : List UInt8) (i : Nat) : Option Bool :=
  bytes[i / 8]?.map fun b => b.toBitVec.getLsbD (i % 8)

theorem bitAt?_eq_none {bytes : List UInt8} {i : Nat} (h : 8 * bytes.length ≤ i) :
    bitAt? bytes i = none := by
  rw [bitAt?, List.getElem?_eq_none (by omega), Option.map_none]

theorem exists_bitAt?_eq_some {bytes : List UInt8} {i : Nat} (h : i < 8 * bytes.length) :
    ∃ on, bitAt? bytes i = some on := by
  have hbyte : i / 8 < bytes.length := by omega
  rw [bitAt?, List.getElem?_eq_getElem hbyte, Option.map_some]
  exact ⟨_, rfl⟩

/-- Bytes with the same bits are the same. -/
theorem eq_of_bitAt? {bytes bytes' : List UInt8} (h : ∀ i, bitAt? bytes i = bitAt? bytes' i) :
    bytes = bytes' := by
  apply List.ext_getElem?
  intro k
  -- Bit `j` of byte `k` is the one at place `8 * k + j`.
  have hbits (j : Nat) (hj : j < 8) :
      (bytes[k]?.map fun b => b.toBitVec.getLsbD j) =
        bytes'[k]?.map fun b => b.toBitVec.getLsbD j := by
    have hdiv : (8 * k + j) / 8 = k := by omega
    have hmod : (8 * k + j) % 8 = j := by omega
    have hplace := h (8 * k + j)
    rwa [bitAt?, bitAt?, hdiv, hmod] at hplace
  have hfirst := hbits 0 (by decide)
  cases hb : bytes[k]? with
  | none =>
    rw [hb, Option.map_none] at hfirst
    exact (Option.map_eq_none_iff.mp hfirst.symm).symm
  | some b =>
    rw [hb, Option.map_some] at hfirst
    obtain ⟨b', hb', -⟩ := Option.map_eq_some_iff.mp hfirst.symm
    rw [hb']
    congr 1
    apply UInt8.toBitVec_inj.mp
    apply BitVec.eq_of_getLsbD_eq
    intro j hj
    have hbit := hbits j hj
    rw [hb, hb', Option.map_some, Option.map_some] at hbit
    exact Option.some.inj hbit

/-- What is read at a place is the bit there, and zero where the bytes have none. -/
theorem getElem?_unpack_eq_bitAt? (bytes : List UInt8) {count i : Nat} (hi : i < count) :
    (unpack bytes count)[i]? = some ((bitAt? bytes i).getD false).toUInt16 := by
  rw [getElem?_unpack bytes hi, bitAt?]
  cases bytes[i / 8]? with
  | none => rfl
  | some b => rfl

/-- What is written has a bit set where there is a value other than zero. -/
theorem getD_bitAt?_pack (values : List UInt16) (i : Nat) :
    (bitAt? (pack values) i).getD false = (values.getD i 0 != 0) := by
  by_cases hi : i < 8 * byteCount values.length
  · obtain ⟨b, hb, hbit⟩ := exists_byte_pack values hi
    rw [bitAt?, hb, Option.map_some, Option.getD_some, hbit, List.getD_eq_getElem?_getD,
      List.getD_eq_getElem?_getD, List.getElem?_map]
    cases values[i]? with
    | none => rfl
    | some value => rfl
  · have hlength : values.length ≤ i := by
      rw [byteCount] at hi
      omega
    rw [bitAt?_eq_none (by rw [length_pack]; omega), List.getD_eq_getElem?_getD,
      List.getElem?_eq_none hlength]
    rfl

theorem bitAt?_pack_eq_some_true_iff (values : List UInt16) (i : Nat) :
    bitAt? (pack values) i = some true ↔ ∃ value, values[i]? = some value ∧ value ≠ 0 := by
  have hset : bitAt? (pack values) i = some true ↔ (bitAt? (pack values) i).getD false = true := by
    cases bitAt? (pack values) i <;> simp
  rw [hset, getD_bitAt?_pack, List.getD_eq_getElem?_getD]
  cases values[i]? <;> simp

/-! ## There and back -/

/-- The states that values count as when they are written. -/
def states (values : List UInt16) : List UInt16 :=
  values.map fun value => if value = 0 then 0 else 1

theorem toUInt16_bne_zero (value : UInt16) :
    (value != 0).toUInt16 = if value = 0 then 0 else 1 := by
  by_cases hzero : value = 0
  · rw [hzero]
    rfl
  · rw [if_neg hzero, bne_iff_ne.mpr hzero]
    rfl

theorem bne_zero_toUInt16 (on : Bool) : (on.toUInt16 != 0) = on := by
  cases on <;> decide

/-- The bytes with all bits from place `count` on cleared, where bit `i % 8` of byte `i / 8` is at
place `i`. -/
def cleared (count : Nat) (bytes : List UInt8) : List UInt8 :=
  bytes.mapIdx fun k b => b &&& UInt8.ofNat ((1 <<< (count - 8 * k)) - 1)

theorem length_cleared (count : Nat) (bytes : List UInt8) :
    (cleared count bytes).length = bytes.length :=
  List.length_mapIdx

theorem getLsbD_lowBits (m : Nat) {j : Nat} (hj : j < 8) :
    (UInt8.ofNat ((1 <<< m) - 1)).toBitVec.getLsbD j = decide (j < m) := by
  have hbyte : (UInt8.ofNat ((1 <<< m) - 1)).toBitVec = BitVec.ofNat 8 ((1 <<< m) - 1) := rfl
  rw [hbyte, BitVec.getLsbD_ofNat, Nat.one_shiftLeft, Nat.testBit_two_pow_sub_one]
  simp [hj]

/-- The bits before place `count` stay, the others are cleared. -/
theorem bitAt?_cleared (count : Nat) (bytes : List UInt8) (i : Nat) :
    bitAt? (cleared count bytes) i = (bitAt? bytes i).map fun on => decide (i < count) && on := by
  have hplace : i % 8 < count - 8 * (i / 8) ↔ i < count := by omega
  rw [bitAt?, bitAt?, cleared, List.getElem?_mapIdx, Option.map_map, Option.map_map]
  congr 1
  funext b
  rw [Function.comp_apply, Function.comp_apply, UInt8.toBitVec_and, BitVec.getLsbD_and,
    getLsbD_lowBits _ (Nat.mod_lt i (by decide)), Bool.and_comm, decide_eq_decide.mpr hplace]

theorem cleared_of_le {count : Nat} {bytes : List UInt8} (h : 8 * bytes.length ≤ count) :
    cleared count bytes = bytes := by
  apply eq_of_bitAt?
  intro i
  rw [bitAt?_cleared]
  by_cases hi : i < count
  · simp [hi]
  · rw [bitAt?_eq_none (by omega), Option.map_none]

/-- What has been written is read as states, cut or filled up to the number that is asked for. -/
theorem unpack_pack (values : List UInt16) (count : Nat) :
    unpack (pack values) count = Values.resize count (states values) := by
  apply List.ext_getElem?
  intro i
  rw [Values.getElem?_resize]
  by_cases hi : i < count
  · rw [getElem?_unpack_eq_bitAt? _ hi, getD_bitAt?_pack, if_pos hi, states, List.getElem?_map,
      List.getD_eq_getElem?_getD]
    congr 1
    cases values[i]? with
    | none => rfl
    | some value => exact toUInt16_bne_zero value
  · rw [if_neg hi, List.getElem?_eq_none (by rw [length_unpack]; omega)]

/-- States that were read from all the bytes are written as these bytes, but without the bits past
the last state. -/
theorem pack_unpack {count : Nat} {bytes : List UInt8} (hlength : bytes.length = (count + 7) / 8) :
    pack (unpack bytes count) = cleared count bytes := by
  have hpacked : (pack (unpack bytes count)).length = bytes.length := by
    rw [length_pack, length_unpack, byteCount, hlength]
  apply eq_of_bitAt?
  intro i
  rw [bitAt?_cleared]
  by_cases hi : i < 8 * bytes.length
  -- Both sides have a bit here. On the left it is that of a state, or zero past the last of them.
  · obtain ⟨on, hon⟩ := exists_bitAt?_eq_some hi
    obtain ⟨on', hon'⟩ := exists_bitAt?_eq_some (hpacked ▸ hi)
    have hvalue := getD_bitAt?_pack (unpack bytes count) i
    rw [hon', Option.getD_some, List.getD_eq_getElem?_getD] at hvalue
    rw [hon, hon', hvalue, Option.map_some]
    by_cases hcount : i < count
    · rw [getElem?_unpack_eq_bitAt? _ hcount, hon, Option.getD_some, Option.getD_some,
        bne_zero_toUInt16]
      simp [hcount]
    · rw [List.getElem?_eq_none (by rw [length_unpack]; omega)]
      simp [hcount]
  · rw [bitAt?_eq_none (by omega), bitAt?_eq_none (by omega), Option.map_none]

/-- Writing and reading coil states, told bit by bit, undo each other.

As many bytes are written as the states fill, the last one up with zeros, and the bit at a place is
set exactly if there is a value there that is not zero. As many values are read as are asked for,
each the bit at its place or, where the bytes have none, zero. What was written is read again as
zeros and ones, and what was read is written again without the bits past the last state; bytes that
are read to their end are written again as they were. -/
theorem packing_and_unpacking_are_inverse (values : List UInt16) (bytes : List UInt8)
    (count : Nat) :
    (pack values).length = (values.length + 7) / 8 ∧
    (∀ i, bitAt? (pack values) i = some true ↔ ∃ value, values[i]? = some value ∧ value ≠ 0) ∧
    (unpack bytes count).length = count ∧
    (∀ i < count, (unpack bytes count)[i]? = some ((bitAt? bytes i).getD false).toUInt16) ∧
    unpack (pack values) count = Values.resize count (states values) ∧
    (bytes.length = (count + 7) / 8 → pack (unpack bytes count) = cleared count bytes) ∧
    (count = 8 * bytes.length → pack (unpack bytes count) = bytes) := by
  refine ⟨length_pack values, bitAt?_pack_eq_some_true_iff values, length_unpack bytes count,
    fun i hi => getElem?_unpack_eq_bitAt? bytes hi, unpack_pack values count, pack_unpack,
    fun hcount => ?_⟩
  have hlength : bytes.length = (count + 7) / 8 := by omega
  rw [pack_unpack hlength, cleared_of_le (Nat.le_of_eq hcount.symm)]

/-- Nine values, some of them neither `0` nor `1`, are written and read as ten states. Ten states
are read from bytes with all the other bits set, and written without these. -/
theorem ten_states_go_there_and_back :
    let values : List UInt16 := [7, 0, 0, 1, 0, 0, 0, 0, 2]
    let bytes : List UInt8 := [0xCD, 0xFD]
    (bytes.length = (10 + 7) / 8 ∧ 16 = 8 * bytes.length) ∧
      unpack (pack values) 10 = [1, 0, 0, 1, 0, 0, 0, 0, 1, 0] ∧
      pack (unpack bytes 10) = [0xCD, 0x01] ∧ pack (unpack bytes 16) = bytes := by
  intro values bytes
  have hpart : bytes.length = (10 + 7) / 8 := by decide
  have hall : 16 = 8 * bytes.length := by decide
  obtain ⟨-, -, -, -, hread, hwritten, -⟩ := packing_and_unpacking_are_inverse values bytes 10
  obtain ⟨-, -, -, -, -, -, hsame⟩ := packing_and_unpacking_are_inverse values bytes 16
  exact ⟨⟨hpart, hall⟩, hread, hwritten hpart, hsame hall⟩

end Modbus.Coils
