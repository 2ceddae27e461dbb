import Modbus.Wire.Registers

/-!
# Reading registers

`Registers.unpack` says at once what reading registers one after the other with a cursor arrives at:
`Cursor.registers_eq_ok` ties the two together wherever enough bytes are left, and
`Registers.getElem?_unpack` names the two bytes behind each value. Where the bytes run out,
`Cursor.registers_eq_error` says which register is the first that is not wholly there.

`Cursor.reading_registers_is_exact` puts this together for a place anywhere in a byte string or past
its end.
-/

namespace Modbus

namespace Registers

/-- The registers that `data` carries; a single byte at the end carries none. -/
def unpack : List UInt8 → List UInt16
  | hi :: lo :: rest => Word.ofBytes hi lo :: unpack rest
  | [_] => []
  | [] => []

theorem length_unpack (data : List UInt8) : (unpack data).length = data.length / 2 := by
  fun_induction unpack data with
  | case1 hi lo rest ih =>
    rw [List.length_cons, ih, List.length_cons, List.length_cons]
    omega
  | case2 => simp
  | case3 => rfl

@[simp] theorem unpack_pack (values : List UInt16) : unpack (pack values) = values := by
  induction values with
  | nil => rfl
  | cons v values ih =>
    have hpack : pack (v :: values) = Word.high v :: Word.low v :: pack values := rfl
    rw [hpack, unpack, ih, Word.ofBytes_high_low]

theorem pack_unpack {bytes : List UInt8} (heven : bytes.length % 2 = 0) :
    pack (unpack bytes) = bytes := by
  fun_induction unpack bytes with
  | case1 hi lo rest ih =>
    have hrest : rest.length % 2 = 0 := by
      rw [List.length_cons, List.length_cons] at heven
      omega
    have hpack : pack (Word.ofBytes hi lo :: unpack rest) =
        Word.bytes (Word.ofBytes hi lo) ++ pack (unpack rest) := rfl
    rw [hpack, Word.bytes_ofBytes, ih hrest]
    rfl
  | case2 => cases heven
  | case3 => rfl

/-- Register `i` is made of the bytes `2 * i` and `2 * i + 1`. -/
theorem getElem?_unpack (data : List UInt8) (i : Nat) :
    (unpack data)[i]? =
      data[2 * i]?.bind fun hi => data[2 * i + 1]?.map fun lo => Word.ofBytes hi lo := by
  fun_induction unpack data generalizing i with
  | case1 hi lo rest ih =>
    cases i with
    | zero => rfl
    | succ i =>
      have hpos : 2 * (i + 1) = 2 * i + 1 + 1 := by omega
      rw [List.getElem?_cons_succ, ih, hpos]
      simp only [List.getElem?_cons_succ]
  | case2 => cases i <;> simp
  | case3 => rfl

/-- Register `i` of a part of `data` is made of the bytes `2 * i` and `2 * i + 1` behind the place
where the part begins. -/
theorem exists_bytes_of_unpack_part {data : List UInt8} {position count i : Nat} {value : UInt16}
    (h : (unpack ((data.drop position).take (2 * count)))[i]? = some value) :
    ∃ hi lo, data[position + 2 * i]? = some hi ∧ data[position + 2 * i + 1]? = some lo ∧
      value.toNat = 256 * hi.toNat + lo.toNat := by
  have hlength := (List.getElem?_eq_some_iff.mp h).1
  rw [length_unpack, List.length_take] at hlength
  rw [getElem?_unpack, List.getElem?_take_of_lt (by omega), List.getElem?_take_of_lt (by omega),
    List.getElem?_drop, List.getElem?_drop] at h
  obtain ⟨hi, hhi, hword⟩ := Option.bind_eq_some_iff.mp h
  obtain ⟨lo, hlo, rfl⟩ := Option.map_eq_some_iff.mp hword
  exact ⟨hi, lo, hhi, hlo, Word.toNat_ofBytes hi lo⟩

end Registers

namespace Cursor

/-- What is left to read after `n` registers, and what they are. -/
theorem registersFrom_eq_ok (done : List UInt16) (n : Nat) (c : Cursor)
    (h : 2 * n ≤ c.rest.length) :
    registersFrom done n c =
      .ok (done.reverse ++ Registers.unpack (c.rest.take (2 * n)),
        ⟨c.position + 2 * n, c.rest.drop (2 * n)⟩) := by
  induction n generalizing done c with
  | zero => simp [registersFrom, Registers.unpack]
  | succ n ih =>
    obtain ⟨position, rest⟩ := c
    match rest, h with
    | hi :: lo :: rest, h =>
      have hn : 2 * n ≤ rest.length := by
        simp only [List.length_cons] at h
        omega
      have hlen : 2 * (n + 1) = 2 * n + 2 := by omega
      simp only [registersFrom, word?, ih (Word.ofBytes hi lo :: done) ⟨position + 2, rest⟩ hn,
        hlen, List.take_succ_cons, List.drop_succ_cons, Registers.unpack, List.reverse_cons,
        List.append_assoc, List.singleton_append]
      congr 3
      omega
    | [_], h => simp at h; omega
    | [], h => simp at h

theorem registers_eq_ok (n : Nat) (c : Cursor) (h : 2 * n ≤ c.rest.length) :
    c.registers n =
      .ok (Registers.unpack (c.rest.take (2 * n)),
        ⟨c.position + 2 * n, c.rest.drop (2 * n)⟩) := by
  rw [registers, registersFrom_eq_ok [] n c h]
  rfl

/-- With too few bytes left, half of their number is how many registers are still read. -/
theorem registersFrom_eq_error (done : List UInt16) (n : Nat) (c : Cursor)
    (h : c.rest.length < 2 * n) :
    registersFrom done n c =
      .error (.missingRegister (done.length + c.rest.length / 2) (done.length + n)) := by
  induction n generalizing done c with
  | zero => omega
  | succ n ih =>
    obtain ⟨position, rest⟩ := c
    match rest, h with
    | hi :: lo :: rest, h =>
      have hn : rest.length < 2 * n := by
        simp only [List.length_cons] at h
        omega
      rw [registersFrom, word?]
      simp only [ih (Word.ofBytes hi lo :: done) ⟨position + 2, rest⟩ hn, List.length_cons]
      congr 2 <;> omega
    | [_], h => simp [registersFrom, word?]
    | [], h => simp [registersFrom, word?]

theorem registers_eq_error (n : Nat) (c : Cursor) (h : c.rest.length < 2 * n) :
    c.registers n = .error (.missingRegister (c.rest.length / 2) n) := by
  rw [registers, registersFrom_eq_error [] n c h, List.length_nil, Nat.zero_add, Nat.zero_add]

theorem exists_registers_eq_ok_iff (n : Nat) (c : Cursor) :
    (∃ result, c.registers n = .ok result) ↔ 2 * n ≤ c.rest.length := by
  constructor
  · rintro ⟨result, hread⟩
    refine Nat.le_of_not_lt fun hshort => ?_
    rw [registers_eq_error n c hshort] at hread
    cases hread
  · intro henough
    exact ⟨_, registers_eq_ok n c henough⟩

/-! ## Places in a byte string -/

variable {data : List UInt8} {position count : Nat}

theorem length_rest_into (data : List UInt8) (position : Nat) :
    (into data position).rest.length = data.length - position :=
  List.length_drop

theorem registers_into_eq_ok (h : 2 * count ≤ data.length - position) :
    (into data position).registers count =
      .ok (Registers.unpack ((data.drop position).take (2 * count)),
        into data (position + 2 * count)) := by
  rw [registers_eq_ok count (into data position) (by rwa [length_rest_into])]
  simp only [into, List.drop_drop]

/-- The registers that have been written are read back from their bytes, and nothing is left. -/
theorem registers_pack (values : List UInt16) :
    (into (Registers.pack values) 0).registers values.length =
      .ok (values, into (Registers.pack values) (2 * values.length)) := by
  have hlength := Registers.length_pack values
  rw [registers_into_eq_ok (by omega), List.drop_zero, List.take_of_length_le (by omega),
    Registers.unpack_pack, Nat.zero_add]

/-- All registers of a whole number of them are read. -/
theorem registers_all (heven : data.length % 2 = 0) :
    (into data 0).registers (data.length / 2) =
      .ok (Registers.unpack data, into data data.length) := by
  have htwice : 2 * (data.length / 2) = data.length := by omega
  rw [registers_into_eq_ok (by omega), htwice, List.drop_zero, List.take_length, Nat.zero_add]

/-- Reading a number of registers from a place in a byte string, which may lie past its end, takes
what is there and no more.

It succeeds exactly if there are two bytes for each register, and then the values are those of the
bytes from the place on, the more significant one first, and the place behind the last is returned.
Otherwise the failure names the first register of which not both bytes are there. Registers that
have been written are read back, and bytes that carry a whole number of registers are written again
as they were read. -/
theorem reading_registers_is_exact (data : List UInt8) (position count : Nat)
    (values : List UInt16) :
    ((∃ result, (into data position).registers count = .ok result) ↔
      count = 0 ∨ 2 * count ≤ data.length - min position data.length) ∧
    (∀ found c, (into data position).registers count = .ok (found, c) →
      c = into data (position + 2 * count) ∧ found.length = count ∧
      ∀ i value, found[i]? = some value →
        ∃ hi lo, data[position + 2 * i]? = some hi ∧ data[position + 2 * i + 1]? = some lo ∧
          value.toNat = 256 * hi.toNat + lo.toNat) ∧
    (∀ e, (into data position).registers count = .error e →
      ∃ k, k = (data.length - min position data.length) / 2 ∧
        (∀ i, i < k ↔ position + 2 * i + 1 < data.length) ∧
        e = .missingRegister k count ∧ e.message = s!"Register {k} of {count} is missing") ∧
    (Registers.pack values).length = 2 * values.length ∧
    (into (Registers.pack values) 0).registers values.length =
      .ok (values, into (Registers.pack values) (2 * values.length)) ∧
    (data.length % 2 = 0 → ∃ found c,
      (into data 0).registers (data.length / 2) = .ok (found, c) ∧
        Registers.pack found = data) := by
  have hrest := length_rest_into data position
  have hiff := exists_registers_eq_ok_iff count (into data position)
  rw [hrest] at hiff
  refine ⟨hiff.trans (by omega), fun found c hread => ?_, fun e hread => ?_,
    Registers.length_pack values, registers_pack values,
    fun heven => ⟨_, _, registers_all heven, Registers.pack_unpack heven⟩⟩
  · have henough := hiff.mp ⟨_, hread⟩
    cases hread.symm.trans (registers_into_eq_ok henough)
    refine ⟨rfl, ?_, fun i value hvalue => Registers.exists_bytes_of_unpack_part hvalue⟩
    rw [Registers.length_unpack, List.length_take, List.length_drop]
    omega
  · have hshort : data.length - position < 2 * count := by
      refine Nat.lt_of_not_le fun henough => ?_
      cases hread.symm.trans (registers_into_eq_ok henough)
    have hmissing := registers_eq_error count (into data position) (by rwa [hrest])
    rw [hrest] at hmissing
    cases hread.symm.trans hmissing
    exact ⟨_, by omega, fun i => by omega, rfl, rfl⟩

/-- Two registers are read from behind the first byte of six. A third is not wholly there, and past
the end not even a first. Read from their beginning, the bytes hold three registers, which are
written in the same bytes. -/
theorem third_register_is_cut_off :
    let data : List UInt8 := [9, 0, 100, 0xAB, 0xCD, 7]
    let found : List UInt16 := [100, 0xABCD]
    ((into data 1).registers 2 = .ok (found, into data (1 + 2 * 2)) ∧
      ∃ hi lo, data[3]? = some hi ∧ data[4]? = some lo ∧ 0xABCD = 256 * hi.toNat + lo.toNat) ∧
    ((into data 1).registers 3 = .error (.missingRegister 2 3) ∧
      (DecodeError.missingRegister 2 3).message = s!"Register {2} of {3} is missing") ∧
    (¬ ∃ result, (into data 9).registers 1 = .ok result) ∧
    data.length % 2 = 0 ∧
      ∃ found c, (into data 0).registers (data.length / 2) = .ok (found, c) ∧
        Registers.pack found = data := by
  intro data found
  have heven : data.length % 2 = 0 := by decide
  have hread : (into data 1).registers 2 = .ok (found, into data (1 + 2 * 2)) := rfl
  have hmissing : (into data 1).registers 3 = .error (.missingRegister 2 3) := rfl
  obtain ⟨-, hfound, -⟩ := reading_registers_is_exact data 1 2 found
  obtain ⟨-, -, herror, -⟩ := reading_registers_is_exact data 1 3 found
  obtain ⟨hpast, -, -, -, -, hwhole⟩ := reading_registers_is_exact data 9 1 found
  obtain ⟨-, -, hbytes⟩ := hfound found _ hread
  obtain ⟨k, -, -, hk, hmessage⟩ := herror _ hmissing
  obtain rfl : k = 2 := (DecodeError.missingRegister.inj hk).1.symm
  exact ⟨⟨hread, hbytes 1 0xABCD rfl⟩, ⟨hmissing, hmessage⟩,
    fun h => absurd (hpast.mp h) (by decide), heven, hwhole heven⟩

end Cursor

end Modbus
