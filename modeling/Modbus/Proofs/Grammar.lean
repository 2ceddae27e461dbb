import Modbus.Proofs.Dispatch
import Modbus.Proofs.Registers

/-!
# The grammar of responses

`Access.IsPayload` says which payloads the response to a data access can have, byte by byte, and
`Access.IsAnswer` adds what the head of the response has to look like. Decoding accepts exactly the
answers, whichever unit it decodes into. The proof follows the layers of `Access.decode`: each check
has a lemma that says when it passes and with what, and `Access.decode_eq_ok_iff` puts them
together.
-/

namespace Modbus

/-! ## Chains of checks -/

theorem bind_eq_ok_iff {ε α β : Type} {x : Except ε α} {f : α → Except ε β} {b : β} :
    x >>= f = .ok b ↔ ∃ a, x = .ok a ∧ f a = .ok b := by
  cases x <;> simp [bind, Except.bind]

theorem FunctionCode.toByte_ne_zero (c : FunctionCode) : c.toByte ≠ 0 := by
  cases c <;> decide

theorem FunctionCode.toByte_lt (c : FunctionCode) : c.toByte.toNat < 0x80 := by
  cases c <;> decide

namespace Response

theorem code_eq_rawCode {r : Response} (h : ¬ r.IsException) : r.code = r.rawCode := by
  rw [IsException, UInt8.not_le, UInt8.lt_iff_toNat_lt] at h
  apply UInt8.toNat_inj.mp
  rw [code, UInt8.toNat_mod]
  exact Nat.mod_eq_of_lt h

theorem not_isException_of_rawCode {r : Response} {c : FunctionCode} (h : r.rawCode = c.toByte) :
    ¬ r.IsException := by
  have hlt := c.toByte_lt
  rw [IsException, UInt8.not_le, UInt8.lt_iff_toNat_lt, h]
  exact hlt

/-- A response answers a function when its first byte is the code of the function, which leaves no
room for the exception bit, and its payload is not too long. -/
theorem checkAnswers_eq_ok_iff {r : Response} {c : FunctionCode} :
    r.checkAnswers c = .ok () ↔ r.rawCode = c.toByte ∧ r.data.length ≤ maxPayload := by
  constructor
  · intro h
    unfold checkAnswers at h
    split at h
    · cases h
    · rename_i hvalid
      split at h
      · cases h
      · rename_i hexc
        split at h
        · cases h
        · rename_i hcode
          rw [Decidable.not_not] at hvalid hcode
          exact ⟨code_eq_rawCode hexc ▸ hcode, hvalid.2.1⟩
  · intro h
    obtain ⟨hraw, hlen⟩ := h
    have hexc := not_isException_of_rawCode hraw
    have hcode : r.code = c.toByte := (code_eq_rawCode hexc).trans hraw
    have hvalid : r.IsValid :=
      ⟨hcode ▸ c.toByte_ne_zero, hlen, fun h => absurd h hexc⟩
    rw [checkAnswers, if_neg (Decidable.not_not.mpr hvalid), if_neg hexc,
      if_neg (Decidable.not_not.mpr hcode)]

end Response

/-! ## The layouts -/

namespace Access

theorem countedBytes_eq_ok_iff {a : Access} {data bytes : List UInt8}
    (ha : 0 < a.code.responseMinimum) :
    a.countedBytes data = .ok bytes ↔
      ∃ count, data = count :: bytes ∧ bytes.length = count.toNat ∧
        a.code.responseMinimum ≤ bytes.length + 1 := by
  cases data with
  | nil => simp [countedBytes, ha]
  | cons count rest =>
    unfold countedBytes
    split
    · rename_i hshort
      simp only [reduceCtorEq, false_iff, List.cons.injEq]
      intro h
      obtain ⟨_, ⟨rfl, rfl⟩, -, hmin⟩ := h
      rw [List.length_cons] at hshort
      omega
    · rename_i hlong
      rw [List.length_cons, Nat.not_lt] at hlong
      simp only
      split
      · rename_i hcount
        constructor
        · rintro ⟨⟩
          exact ⟨count, rfl, hcount, hlong⟩
        · intro h
          obtain ⟨_, ⟨⟩, -⟩ := h
          rfl
      · rename_i hcount
        simp only [reduceCtorEq, false_iff, List.cons.injEq]
        intro h
        obtain ⟨_, ⟨rfl, rfl⟩, heq, -⟩ := h
        exact hcount heq

theorem countedRegisters_eq_ok_iff {a : Access} {data : List UInt8} {values : List UInt16}
    (ha : a.code.responseMinimum = 3) :
    a.countedRegisters data = .ok values ↔
      ∃ count bytes, data = count :: bytes ∧ bytes.length = count.toNat ∧
        count.toNat % 2 = 0 ∧ 2 ≤ count.toNat ∧ values = Registers.unpack bytes := by
  simp only [countedRegisters, bind_eq_ok_iff, countedBytes_eq_ok_iff (a := a) (by omega), ha]
  constructor
  · rintro ⟨bytes, ⟨count, rfl, hcount, hmin⟩, h⟩
    split at h
    · cases h
    · rename_i heven
      rw [Decidable.not_not] at heven
      rw [Cursor.registers_all heven] at h
      cases h
      exact ⟨count, bytes, rfl, hcount, by omega, by omega, rfl⟩
  · intro h
    obtain ⟨count, bytes, rfl, hcount, heven, hmin, rfl⟩ := h
    refine ⟨bytes, ⟨count, rfl, hcount, by omega⟩, ?_⟩
    have hwhole : bytes.length % 2 = 0 := by omega
    rw [if_neg (by omega), Cursor.registers_all hwhole]
    rfl

theorem twoWords_eq_ok_iff {a : Access} {data : List UInt8} {w₁ w₂ : UInt16} :
    a.twoWords data = .ok (w₁, w₂) ↔ data = Word.bytes w₁ ++ Word.bytes w₂ := by
  constructor
  · intro h
    unfold twoWords at h
    split at h
    · cases h
      simp
    · cases h
  · rintro rfl
    simp [twoWords, Word.bytes]

/-- What a payload says: its layout and its content at once. -/
def Conveys (a : Access) (data : List UInt8) (c : Content) : Prop :=
  match a with
  | readCoils | readDiscreteInputs =>
    ∃ count bytes, data = count :: bytes ∧ bytes.length = count.toNat ∧ 1 ≤ count.toNat ∧
      c = .bits bytes
  | readHoldingRegisters | readInputRegisters | readWriteMultipleRegisters =>
    ∃ count bytes, data = count :: bytes ∧ bytes.length = count.toNat ∧ count.toNat % 2 = 0 ∧
      2 ≤ count.toNat ∧ c = .registers a.table (Registers.unpack bytes)
  | writeSingleCoil =>
    ∃ address on, data = Word.bytes address ++ Word.bytes (Datum.coil on).word ∧
      c = .coil address on
  | writeSingleRegister =>
    ∃ address value, data = Word.bytes address ++ Word.bytes value ∧ c = .register address value
  | writeMultipleCoils =>
    ∃ start count, data = Word.bytes start ++ Word.bytes count ∧ c = .coilRange start count
  | writeMultipleRegisters =>
    ∃ start count, data = Word.bytes start ++ Word.bytes count ∧ 1 ≤ count.toNat ∧
      count.toNat ≤ registerWriteLimit ∧ c = .registerRange start count

theorem conveys_bits_iff {a : Access} {data : List UInt8} {c : Content}
    (ha : a.code.responseMinimum = 2) :
    (a.countedBytes data >>= fun packed => .ok (.bits packed)) = .ok c ↔
      ∃ count bytes, data = count :: bytes ∧ bytes.length = count.toNat ∧ 1 ≤ count.toNat ∧
        c = .bits bytes := by
  simp only [bind_eq_ok_iff, countedBytes_eq_ok_iff (a := a) (by omega), ha]
  constructor
  · intro h
    obtain ⟨bytes, ⟨count, rfl, hcount, hmin⟩, ⟨⟩⟩ := h
    exact ⟨count, bytes, rfl, hcount, by omega, rfl⟩
  · intro h
    obtain ⟨count, bytes, rfl, hcount, hmin, rfl⟩ := h
    exact ⟨bytes, ⟨count, rfl, hcount, by omega⟩, rfl⟩

theorem conveys_registers_iff {a : Access} {data : List UInt8} {c : Content}
    (ha : a.code.responseMinimum = 3) :
    (a.countedRegisters data >>= fun values => .ok (.registers a.table values)) = .ok c ↔
      ∃ count bytes, data = count :: bytes ∧ bytes.length = count.toNat ∧ count.toNat % 2 = 0 ∧
        2 ≤ count.toNat ∧ c = .registers a.table (Registers.unpack bytes) := by
  simp only [bind_eq_ok_iff, countedRegisters_eq_ok_iff ha]
  constructor
  · intro h
    obtain ⟨values, ⟨count, bytes, rfl, hcount, heven, hmin, rfl⟩, ⟨⟩⟩ := h
    exact ⟨count, bytes, rfl, hcount, heven, hmin, rfl⟩
  · intro h
    obtain ⟨count, bytes, rfl, hcount, heven, hmin, rfl⟩ := h
    exact ⟨_, ⟨count, bytes, rfl, hcount, heven, hmin, rfl⟩, rfl⟩

/-- Decoding a payload finds what it says, and fails where it says nothing. -/
theorem content_eq_ok_iff {a : Access} {data : List UInt8} {c : Content} :
    a.content data = .ok c ↔ a.Conveys data c := by
  cases a with
  | readCoils | readDiscreteInputs => exact conveys_bits_iff rfl
  | readHoldingRegisters | readInputRegisters | readWriteMultipleRegisters =>
    exact conveys_registers_iff rfl
  | writeSingleCoil =>
    simp only [content, Conveys, bind_eq_ok_iff, Prod.exists, twoWords_eq_ok_iff,
      Datum.coilOfWord_eq_ok_iff]
    constructor
    · intro h
      obtain ⟨address, word, rfl, on, rfl, ⟨⟩⟩ := h
      exact ⟨address, on, rfl, rfl⟩
    · intro h
      obtain ⟨address, on, rfl, rfl⟩ := h
      exact ⟨address, _, rfl, on, rfl, rfl⟩
  | writeSingleRegister =>
    simp only [content, Conveys, bind_eq_ok_iff, Prod.exists, twoWords_eq_ok_iff, Except.ok.injEq]
    simp only [eq_comm]
  | writeMultipleCoils =>
    simp only [content, Conveys, bind_eq_ok_iff, Prod.exists, twoWords_eq_ok_iff, Except.ok.injEq]
    simp only [eq_comm]
  | writeMultipleRegisters =>
    simp only [content, Conveys, bind_eq_ok_iff, Prod.exists, twoWords_eq_ok_iff]
    constructor
    · rintro ⟨start, count, rfl, h⟩
      split at h
      · rename_i hcount
        cases h
        exact ⟨start, count, rfl, hcount.1, hcount.2, rfl⟩
      · cases h
    · intro h
      obtain ⟨start, count, rfl, hlo, hhi, rfl⟩ := h
      exact ⟨start, count, rfl, if_pos ⟨hlo, hhi⟩⟩

theorem decode_eq_ok_iff {a : Access} {r : Response} {c : Content} :
    a.decode r = .ok c ↔
      r.rawCode = a.toByte ∧ r.data.length ≤ maxPayload ∧ a.Conveys r.data c := by
  have hchecks : r.checkAnswers a.code = .ok () ↔
      r.rawCode = a.toByte ∧ r.data.length ≤ maxPayload := Response.checkAnswers_eq_ok_iff
  rw [decode, bind_eq_ok_iff, ← and_assoc, ← hchecks, ← content_eq_ok_iff]
  constructor
  · intro h
    obtain ⟨u, h⟩ := h
    exact h
  · intro h
    exact ⟨(), h⟩

theorem decodeInto_fst_eq_ok_iff {a : Access} {r : Response} {unit : Option DataUnit} :
    (a.decodeInto r unit).1 = .ok () ↔ ∃ c, a.decode r = .ok c := by
  cases h : a.decode r <;> simp [decodeInto, h]

/-! ## Answers -/

/-- The payloads that the response to a data access can have. What has been read comes behind the
number of its bytes, registers in whole pairs; what has been written is acknowledged by four bytes,
the last two of which are a coil state or a number of registers for some of the accesses. -/
def IsPayload (a : Access) (data : List UInt8) : Prop :=
  match a with
  | readCoils | readDiscreteInputs =>
    ∃ count rest, data = count :: rest ∧ rest.length = count.toNat ∧ 1 ≤ count.toNat
  | readHoldingRegisters | readInputRegisters | readWriteMultipleRegisters =>
    ∃ count rest, data = count :: rest ∧ rest.length = count.toNat ∧ count.toNat % 2 = 0 ∧
      2 ≤ count.toNat
  | writeSingleCoil =>
    ∃ a₁ a₀ b₁ b₀, data = [a₁, a₀, b₁, b₀] ∧ ((b₁ = 0x00 ∧ b₀ = 0x00) ∨ (b₁ = 0xFF ∧ b₀ = 0x00))
  | writeSingleRegister | writeMultipleCoils => data.length = 4
  | writeMultipleRegisters =>
    ∃ a₁ a₀ b₁ b₀, data = [a₁, a₀, b₁, b₀] ∧ 1 ≤ 256 * b₁.toNat + b₀.toNat ∧
      256 * b₁.toNat + b₀.toNat ≤ 123

/-- The responses to a data access: the first byte is its code, with no exception bit, and the
payload is one that it can have and not too long. -/
def IsAnswer (a : Access) (r : Response) : Prop :=
  r.rawCode = a.toByte ∧ r.data.length ≤ 252 ∧ a.IsPayload r.data

theorem exists_bytes_iff {data : List UInt8} {p : UInt16 → UInt16 → Prop} :
    (∃ w₁ w₂, data = Word.bytes w₁ ++ Word.bytes w₂ ∧ p w₁ w₂) ↔
      ∃ a₁ a₀ b₁ b₀, data = [a₁, a₀, b₁, b₀] ∧ p (Word.ofBytes a₁ a₀) (Word.ofBytes b₁ b₀) := by
  constructor
  · rintro ⟨w₁, w₂, rfl, h⟩
    exact ⟨_, _, _, _, rfl, by simpa using h⟩
  · rintro ⟨a₁, a₀, b₁, b₀, rfl, h⟩
    exact ⟨_, _, by simp, h⟩

theorem exists_four_bytes_iff {data : List UInt8} :
    (∃ a₁ a₀ b₁ b₀, data = [a₁, a₀, b₁, b₀]) ↔ data.length = 4 := by
  constructor
  · intro h
    obtain ⟨a₁, a₀, b₁, b₀, rfl⟩ := h
    rfl
  · intro h
    match data, h with
    | [a₁, a₀, b₁, b₀], _ => exact ⟨a₁, a₀, b₁, b₀, rfl⟩

theorem ofBytes_eq_word_iff {hi lo : UInt8} :
    (∃ on, Word.ofBytes hi lo = (Datum.coil on).word) ↔
      (hi = 0x00 ∧ lo = 0x00) ∨ (hi = 0xFF ∧ lo = 0x00) := by
  have hword (w : UInt16) : Word.ofBytes hi lo = w ↔ hi = Word.high w ∧ lo = Word.low w := by
    constructor
    · rintro rfl
      simp
    · intro h
      obtain ⟨rfl, rfl⟩ := h
      simp
  rw [Bool.exists_bool, hword, hword]
  exact Iff.rfl

/-- The payloads that an access can have are those that say something. -/
theorem isPayload_iff_exists_conveys {a : Access} {data : List UInt8} :
    a.IsPayload data ↔ ∃ c, a.Conveys data c := by
  cases a with
  | readCoils | readDiscreteInputs =>
    constructor
    · intro h
      obtain ⟨count, rest, hdata, hcount, hmin⟩ := h
      exact ⟨_, count, rest, hdata, hcount, hmin, rfl⟩
    · intro h
      obtain ⟨_, count, rest, hdata, hcount, hmin, -⟩ := h
      exact ⟨count, rest, hdata, hcount, hmin⟩
  | readHoldingRegisters | readInputRegisters | readWriteMultipleRegisters =>
    constructor
    · intro h
      obtain ⟨count, rest, hdata, hcount, heven, hmin⟩ := h
      exact ⟨_, count, rest, hdata, hcount, heven, hmin, rfl⟩
    · intro h
      obtain ⟨_, count, rest, hdata, hcount, heven, hmin, -⟩ := h
      exact ⟨count, rest, hdata, hcount, heven, hmin⟩
  | writeSingleCoil =>
    have hconveys : (∃ c, Conveys writeSingleCoil data c) ↔ ∃ address word,
        data = Word.bytes address ++ Word.bytes word ∧ ∃ on, word = (Datum.coil on).word := by
      constructor
      · intro h
        obtain ⟨_, address, on, hdata, -⟩ := h
        exact ⟨address, _, hdata, on, rfl⟩
      · intro h
        obtain ⟨address, _, hdata, on, rfl⟩ := h
        exact ⟨_, address, on, hdata, rfl⟩
    rw [hconveys, exists_bytes_iff]
    simp only [ofBytes_eq_word_iff, IsPayload]
  | writeSingleRegister | writeMultipleCoils =>
    have hconveys : (∃ w₁ w₂, data = Word.bytes w₁ ++ Word.bytes w₂ ∧ True) ↔ _ := exists_bytes_iff
    simp only [and_true, exists_four_bytes_iff] at hconveys
    rw [IsPayload, ← hconveys]
    constructor
    · intro h
      obtain ⟨w₁, w₂, hdata⟩ := h
      exact ⟨_, w₁, w₂, hdata, rfl⟩
    · intro h
      obtain ⟨_, w₁, w₂, hdata, -⟩ := h
      exact ⟨w₁, w₂, hdata⟩
  | writeMultipleRegisters =>
    have hconveys : (∃ c, Conveys writeMultipleRegisters data c) ↔ ∃ start count,
        data = Word.bytes start ++ Word.bytes count ∧ 1 ≤ count.toNat ∧ count.toNat ≤ 123 := by
      constructor
      · intro h
        obtain ⟨_, start, count, hdata, hmin, hmax, -⟩ := h
        exact ⟨start, count, hdata, hmin, hmax⟩
      · intro h
        obtain ⟨start, count, hdata, hmin, hmax⟩ := h
        exact ⟨_, start, count, hdata, hmin, hmax, rfl⟩
    rw [hconveys, exists_bytes_iff]
    simp only [Word.toNat_ofBytes, IsPayload]

theorem decodeInto_fst_eq_ok_iff_isAnswer {a : Access} {r : Response} {unit : Option DataUnit} :
    (a.decodeInto r unit).1 = .ok () ↔ a.IsAnswer r := by
  simp only [decodeInto_fst_eq_ok_iff, decode_eq_ok_iff, IsAnswer, isPayload_iff_exists_conveys,
    exists_and_left, maxPayload]

theorem decodeInto_fst_eq (a : Access) (r : Response) (u v : Option DataUnit) :
    (a.decodeInto r u).1 = (a.decodeInto r v).1 := by
  cases h : a.decode r <;> simp [decodeInto, h]

theorem toByte_inj {a b : Access} : a.toByte = b.toByte ↔ a = b := by
  rw [← ofByte?_eq_some_iff, ofByte?_toByte, Option.some.injEq, eq_comm]

end Access

/-- A response to a data access is accepted when it can be decoded. -/
theorem Response.accepted_process_iff {r : Response} {a : Access} (h : r.code = a.toByte)
    (extension : Option Extension) (unit : Option DataUnit) :
    (r.process extension unit).value.accepted = true ↔ (a.decodeInto r unit).1 = .ok () := by
  rw [value_process_of_access (a := a) (by rw [h, Access.ofByte?_toByte])]
  cases (a.decodeInto r unit).1 <;> simp [Except.isOk, Except.toBool]

/-- Whether a response can be decoded for a data access is a matter of its bytes alone: it can
exactly if it is an answer to that access. So it is an answer to one access at most, and looking
for the decoder by the function code finds the one that accepts it if there is one. -/
theorem decoding_accepts_exactly_the_answers (r : Response) (extension : Option Extension) :
    (∀ (a : Access) (u : Option DataUnit), (a.decodeInto r u).1 = .ok () ↔ a.IsAnswer r) ∧
    (∀ (a : Access) (u v : Option DataUnit), (a.decodeInto r u).1 = (a.decodeInto r v).1) ∧
    (∀ (a b : Access) (u v : Option DataUnit),
      (a.decodeInto r u).1 = .ok () → (b.decodeInto r v).1 = .ok () → a = b) ∧
    (∀ (a : Access) (u v : Option DataUnit), r.code = a.toByte →
      ((r.process extension u).value.accepted = true ↔ (a.decodeInto r v).1 = .ok ())) := by
  refine ⟨fun a u => Access.decodeInto_fst_eq_ok_iff_isAnswer,
    fun a u v => Access.decodeInto_fst_eq a r u v, fun a b u v ha hb => ?_, fun a u v hcode => ?_⟩
  · have hra := (Access.decodeInto_fst_eq_ok_iff_isAnswer.mp ha).1
    have hrb := (Access.decodeInto_fst_eq_ok_iff_isAnswer.mp hb).1
    exact Access.toByte_inj.mp (hra.symm.trans hrb)
  · rw [Response.accepted_process_iff hcode extension u, Access.decodeInto_fst_eq a r u v]

theorem decoding_accepts_one_holding_register :
    (⟨3, [2, 0, 7]⟩ : Response).code = Access.readHoldingRegisters.toByte ∧
      ((⟨3, [2, 0, 7]⟩ : Response).process none (some {})).value.accepted = true := by
  have h := decoding_accepts_exactly_the_answers ⟨3, [2, 0, 7]⟩ none
  have hcode : (⟨3, [2, 0, 7]⟩ : Response).code = Access.readHoldingRegisters.toByte := by decide
  have hanswer : Access.readHoldingRegisters.IsAnswer ⟨3, [2, 0, 7]⟩ :=
    ⟨rfl, by decide, 2, [0, 7], rfl, rfl, rfl, by decide⟩
  exact ⟨hcode, (h.2.2.2 _ _ none hcode).mpr ((h.1 _ _).mpr hanswer)⟩

end Modbus
