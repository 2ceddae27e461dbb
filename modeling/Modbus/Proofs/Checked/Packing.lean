import Modbus.Proofs.Checked.Operations
import Modbus.Proofs.Layouts

/-!
# Packing and unpacking with checks

Coil states are packed bit by bit: the byte string is filled with zeros first, and each state that
is "on" sets its bit in the byte that is there for it. They are unpacked in the same way, into a
list that has been filled with zeros, until the list is full or the bits have run out. Registers are
written behind each other and read from a cursor.

`packCoils_eq_ok`, `unpackCoils_eq_ok` and `packRegisters_eq_ok` say that no step of this fails and
that it comes to the same as `Coils.pack`, `Coils.unpack` and `Registers.pack`.
-/

namespace Modbus

namespace Values

theorem resize_nil (n : Nat) : resize n [] = List.replicate n 0 := by
  simp [resize, List.rightpad]

theorem resize_zero (values : List UInt16) : resize 0 values = [] :=
  List.eq_nil_of_length_eq_zero (length_resize 0 values)

theorem resize_cons (n : Nat) (value : UInt16) (values : List UInt16) :
    resize (n + 1) (value :: values) = value :: resize n values := by
  simp [resize, List.rightpad]

end Values

namespace Checked

/-! ## Packing coil states -/

/-- How many bytes carry `count` coil states. -/
def byteCount (count : Nat) : Checked Nat :=
  if count % 8 = 0 then .ok (count / 8) else add placeSize (count / 8) 1

theorem byteCount_eq_ok {count : Nat} (h : count < placeSize) :
    byteCount count = .ok (Coils.byteCount count) := by
  have hplaces : placeSize = 0x100000000 := rfl
  unfold byteCount Coils.byteCount
  split
  · congr 1
    omega
  · rw [add_eq_ok (by omega)]
    congr 1
    omega

/-- Sets the bit at place `index` if the state there is "on". -/
def setState (bytes : List UInt8) (index : Nat) (value : UInt16) : Checked (List UInt8) :=
  if value = 0 then .ok bytes
  else do
    let mask ← bit (index % 8)
    update bytes (index / 8) (· ||| mask)

/-- Sets the bits from place `index` on whose states are "on". -/
def setStates (bytes : List UInt8) (index : Nat) : List UInt16 → Checked (List UInt8)
  | [] => .ok bytes
  | value :: values => do
    let bytes ← setState bytes index value
    setStates bytes (index + 1) values

/-- The bytes that carry the states `values`. -/
def packCoils (values : List UInt16) : Checked (List UInt8) := do
  let size ← byteCount values.length
  setStates (List.replicate size 0) 0 values

/-- The values have one at place `i`, and it counts as "on". -/
def IsOn (values : List UInt16) (i : Nat) : Prop := ∃ value, values[i]? = some value ∧ value ≠ 0

/-- The bits that are set are those whose states are "on". -/
def Marks (values : List UInt16) (bytes : List UInt8) : Prop :=
  ∀ i b, bytes[i / 8]? = some b → (b.toBitVec.getLsbD (i % 8) = true ↔ IsOn values i)

theorem isOn_concat (values : List UInt16) (value : UInt16) (i : Nat) :
    IsOn (values ++ [value]) i ↔ IsOn values i ∨ i = values.length ∧ value ≠ 0 := by
  unfold IsOn
  rcases Nat.lt_trichotomy i values.length with hi | rfl | hi
  · rw [List.getElem?_append_left hi]
    simp [Nat.ne_of_lt hi]
  · simp
  · rw [List.getElem?_eq_none (by simp; omega), List.getElem?_eq_none (by omega)]
    simp [Nat.ne_of_gt hi]

theorem marks_zeros (n : Nat) : Marks [] (List.replicate n 0) := by
  intro i b hb
  obtain rfl := List.eq_of_mem_replicate (List.mem_of_getElem? hb)
  simp [IsOn]

theorem getLsbD_or_twoPow (b : UInt8) {k : Nat} (hk : k < 8) (j : Nat) :
    (b ||| UInt8.ofBitVec (BitVec.twoPow 8 k)).toBitVec.getLsbD j =
      (b.toBitVec.getLsbD j || decide (k = j)) := by
  rw [UInt8.toBitVec_or, BitVec.getLsbD_or, UInt8.toBitVec_ofBitVec, BitVec.getLsbD_twoPow]
  simp [hk]

variable {done : List UInt16} {bytes : List UInt8}

/-- Setting the bit of a new state marks it, and no other. -/
theorem Marks.set (h : Marks done bytes) {value : UInt16} (hon : value ≠ 0) :
    Marks (done ++ [value]) (bytes.modify (done.length / 8)
      (· ||| UInt8.ofBitVec (BitVec.twoPow 8 (done.length % 8)))) := by
  intro i b hb
  rw [List.getElem?_modify] at hb
  obtain ⟨b₀, hb₀, rfl⟩ := Option.map_eq_some_iff.mp hb
  rw [isOn_concat, ← h i b₀ hb₀]
  by_cases hbyte : done.length / 8 = i / 8
  · have hplace : i = done.length ↔ done.length % 8 = i % 8 := by omega
    rw [if_pos hbyte, getLsbD_or_twoPow b₀ (Nat.mod_lt _ (by decide))]
    simp [hplace, hon]
  · have hplace : i ≠ done.length := fun hi => hbyte (by rw [hi])
    rw [if_neg hbyte]
    simp [hplace]

/-- One more state is marked by setting at most its own bit. -/
theorem setState_eq_ok (h : Marks done bytes) (hplace : done.length < 8 * bytes.length)
    (value : UInt16) :
    ∃ bytes', setState bytes done.length value = .ok bytes' ∧ bytes'.length = bytes.length ∧
      Marks (done ++ [value]) bytes' := by
  by_cases hoff : value = 0
  · refine ⟨bytes, if_pos hoff, rfl, fun i b hb => ?_⟩
    rw [isOn_concat, h i b hb]
    simp [hoff]
  · refine ⟨_, ?_, List.length_modify .., h.set hoff⟩
    rw [setState, if_neg hoff, bit_eq_ok (Nat.mod_lt _ (by decide))]
    exact update_eq_ok (by omega) _

theorem setStates_eq_ok (h : Marks done bytes) (values : List UInt16)
    (hplace : done.length + values.length ≤ 8 * bytes.length) :
    ∃ bytes', setStates bytes done.length values = .ok bytes' ∧ bytes'.length = bytes.length ∧
      Marks (done ++ values) bytes' := by
  induction values generalizing done bytes with
  | nil => exact ⟨bytes, rfl, rfl, by rwa [List.append_nil]⟩
  | cons value values ih =>
    rw [List.length_cons] at hplace
    obtain ⟨next, hstep, hlength, hnext⟩ := setState_eq_ok h (by omega) value
    have hdone : (done ++ [value]).length = done.length + 1 := by simp
    obtain ⟨last, hrun, hlast, hmarks⟩ := ih hnext (by omega)
    refine ⟨last, ?_, hlast.trans hlength, by rwa [List.append_cons]⟩
    rw [setStates, hstep, ← hdone]
    exact hrun

theorem packCoils_eq_ok {values : List UInt16} (h : values.length < placeSize) :
    packCoils values = .ok (Coils.pack values) := by
  obtain ⟨bytes, hset, hlength, hmarks⟩ :=
    setStates_eq_ok (marks_zeros (Coils.byteCount values.length)) values (by
      rw [List.length_replicate, Coils.byteCount, List.length_nil]
      omega)
  have hpacks : Table.coils.Packs values bytes := by
    have hbit : Table.coils.isBit := rfl
    rw [Table.Packs, if_pos hbit, hlength, List.length_replicate]
    exact ⟨rfl, hmarks⟩
  rw [packCoils, byteCount_eq_ok h, (Table.packs_pack_coils rfl values).eq hpacks]
  exact hset

/-! ## Unpacking coil states -/

/-- Stores bits, each given by a byte and the bit's place in it, in the list `values` from place
`coil` on, up to place `count`. -/
def storeBits (count : Nat) :
    (bits : List (UInt8 × Nat)) → (values : List UInt16) → (coil : Nat) → Checked (List UInt16)
  | [], values, _ => .ok values
  | (b, k) :: bits, values, coil =>
    if count ≤ coil then .ok values
    else do
      let value ← bitOf b k
      let values ← update values coil fun _ => value
      let coil ← add placeSize coil 1
      storeBits count bits values coil

/-- The bits of bytes in the order they are stored. -/
def bitPlaces (data : List UInt8) : List (UInt8 × Nat) :=
  data.flatMap fun b => (List.range 8).map fun k => (b, k)

/-- The first `count` coil states that `data` carries. -/
def unpackCoils (data : List UInt8) (count : Nat) : Checked (List UInt16) :=
  storeBits count (bitPlaces data) (List.replicate count 0) 0

/-- The state that a bit stands for. -/
def stateOf (place : UInt8 × Nat) : UInt16 := (place.1.toBitVec.getLsbD place.2).toUInt16

theorem modify_append_cons (xs ys : List UInt16) (x : UInt16) (f : UInt16 → UInt16) :
    (xs ++ x :: ys).modify xs.length f = xs ++ f x :: ys := by
  induction xs with
  | nil => rfl
  | cons y xs ih => rw [List.cons_append, List.length_cons, List.modify_succ_cons, ih]; rfl

/-- Behind the values that have been stored there is room for `rest` more. -/
theorem storeBits_eq_ok (done : List UInt16) (rest : Nat) {bits : List (UInt8 × Nat)}
    (hbits : ∀ place ∈ bits, place.2 < 8) (h : done.length + rest < placeSize) :
    storeBits (done.length + rest) bits (done ++ List.replicate rest 0) done.length =
      .ok (done ++ Values.resize rest (bits.map stateOf)) := by
  induction bits generalizing done rest with
  | nil => rw [storeBits, List.map_nil, Values.resize_nil]
  | cons place bits ih =>
    obtain ⟨b, k⟩ := place
    rw [storeBits]
    cases rest with
    | zero => rw [if_pos (by omega), Values.resize_zero, List.replicate_zero]
    | succ rest =>
      have hk : k < 8 := hbits (b, k) List.mem_cons_self
      have hroom : done.length < (done ++ List.replicate (rest + 1) 0).length := by simp
      have hlater := ih (done ++ [stateOf (b, k)]) rest
        (fun place hplace => hbits place (List.mem_cons_of_mem _ hplace)) (by simp; omega)
      rw [List.length_append, List.length_singleton, List.append_assoc, List.append_assoc,
        List.singleton_append, List.singleton_append, Nat.add_assoc, Nat.add_comm 1] at hlater
      rw [if_neg (by omega), bitOf_eq_ok hk, ok_bind, update_eq_ok hroom, ok_bind,
        add_eq_ok (by omega), ok_bind, List.replicate_succ, modify_append_cons, List.map_cons,
        Values.resize_cons]
      exact hlater

theorem unpackCoils_eq_ok (data : List UInt8) {count : Nat} (h : count < placeSize) :
    unpackCoils data count = .ok (Coils.unpack data count) := by
  have hbits : ∀ place ∈ bitPlaces data, place.2 < 8 := by
    intro place hplace
    obtain ⟨b, -, hb⟩ := List.mem_flatMap.mp hplace
    obtain ⟨k, hk, rfl⟩ := List.mem_map.mp hb
    exact List.mem_range.mp hk
  have hstates : (bitPlaces data).map stateOf =
      data.flatMap fun b => (Coils.bitsOfByte b).map Bool.toUInt16 := by
    simp [bitPlaces, Coils.bitsOfByte, List.map_flatMap, Function.comp_def, stateOf]
  have hstored := storeBits_eq_ok [] count hbits (by rwa [List.length_nil, Nat.zero_add])
  rw [hstates, List.length_nil, Nat.zero_add] at hstored
  exact hstored

/-! ## Registers -/

/-- The bytes that carry `values`, for which room is made at once. -/
def packRegisters (values : List UInt16) : Checked (List UInt8) := do
  let _size ← mul placeSize values.length 2
  .ok (Registers.pack values)

theorem packRegisters_eq_ok {values : List UInt16} (h : values.length * 2 < placeSize) :
    packRegisters values = .ok (Registers.pack values) := by
  rw [packRegisters, mul_eq_ok h]
  rfl

/-- The next byte and the place behind it. -/
def readByte : Cursor → Checked (UInt8 × Cursor)
  | ⟨position, b :: rest⟩ => .ok (b, ⟨position + 1, rest⟩)
  | _ => .error .exhausted

/-- The next word and the place behind it. -/
def readWord (c : Cursor) : Checked (UInt16 × Cursor) :=
  match c.word? with
  | some next => .ok next
  | none => .error .exhausted

/-- The next `count` registers. -/
def readRegisters (count : Nat) (c : Cursor) : Checked (List UInt16) :=
  match c.registers count with
  | .ok (values, _) => .ok values
  | .error _ => .error .exhausted

theorem readRegisters_eq_ok {count : Nat} {c : Cursor} (h : 2 * count ≤ c.rest.length) :
    readRegisters count c = .ok (Registers.unpack (c.rest.take (2 * count))) := by
  rw [readRegisters, c.registers_eq_ok count h]

end Checked

end Modbus
