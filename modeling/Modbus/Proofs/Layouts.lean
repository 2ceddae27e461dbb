import Modbus.Proofs.Payloads
import Modbus.Proofs.Requests

/-!
# The bytes of requests

What one request can ask for is told here in numbers: `DataUnit.CanBeRead`,
`DataUnit.CanBeWritten` and `DataUnit.CanBeExchanged`. What the request looks like is told byte by
byte: `DataUnit.ReadLayout`, `DataUnit.WriteLayout` and `DataUnit.ExchangeLayout`. Neither speaks of
how requests are built. `building_accepts_exactly_the_expressible_units` says that a request is
built when there is one to build, that it has its layout, and that everything else is refused with
the same empty request.

`Table.Packs` is the strict form of `Table.Carries`: it leaves no bit open, not even those behind
the last coil.
-/

namespace Modbus

/-! ## Values -/

/-- A number has one pair of bytes. -/
theorem Word.pair_inj {hi lo hi' lo' : UInt8}
    (h : 256 * hi.toNat + lo.toNat = 256 * hi'.toNat + lo'.toNat) : hi = hi' ∧ lo = lo' := by
  have := lo.toNat_lt
  have := lo'.toNat_lt
  exact ⟨UInt8.toNat_inj.mp (by omega), UInt8.toNat_inj.mp (by omega)⟩

/-- The bytes are the ones that the values of a table are written as. A coil is on if its value is
not zero, and every bit that belongs to no coil is zero. -/
def Table.Packs (t : Table) (values : List UInt16) (bytes : List UInt8) : Prop :=
  if t.isBit then
    bytes.length = (values.length + 7) / 8 ∧
      ∀ i b, bytes[i / 8]? = some b →
        (b.toBitVec.getLsbD (i % 8) = true ↔ ∃ value, values[i]? = some value ∧ value ≠ 0)
  else t.Carries values bytes

namespace Table

variable {t : Table}

theorem packs_pack_coils (ht : t.isBit) (values : List UInt16) :
    t.Packs values (Coils.pack values) := by
  rw [Packs, if_pos ht]
  refine ⟨Coils.length_pack values, fun i b hb => ?_⟩
  have hset := Coils.bitAt?_pack_eq_some_true_iff values i
  rwa [Coils.bitAt?, hb, Option.map_some, Option.some_inj] at hset

theorem packs_pack_registers (ht : ¬ t.isBit) (values : List UInt16) :
    t.Packs values (Registers.pack values) := by
  rw [Packs, if_neg ht]
  exact carries_pack_registers ht values

/-- Values are written in one way. -/
theorem Packs.eq {values : List UInt16} {bytes bytes' : List UInt8} (h : t.Packs values bytes)
    (h' : t.Packs values bytes') : bytes = bytes' := by
  by_cases ht : t.isBit
  · rw [Packs, if_pos ht] at h h'
    obtain ⟨hlength, hbits⟩ := h
    obtain ⟨hlength', hbits'⟩ := h'
    refine Coils.eq_of_bitAt? fun i => ?_
    by_cases hi : i < 8 * bytes.length
    · have hk : i / 8 < bytes.length := by omega
      have hk' : i / 8 < bytes'.length := by omega
      have hbyte := List.getElem?_eq_getElem hk
      have hbyte' := List.getElem?_eq_getElem hk'
      have hbit := (hbits i _ hbyte).trans (hbits' i _ hbyte').symm
      rw [Coils.bitAt?, Coils.bitAt?, hbyte, hbyte', Option.map_some, Option.map_some,
        Bool.eq_iff_iff.mpr hbit]
    · rw [Coils.bitAt?_eq_none (by omega), Coils.bitAt?_eq_none (by omega)]
  · rw [Packs, if_neg ht, carries_registers_iff ht] at h h'
    obtain ⟨hlength, hwords⟩ := h
    obtain ⟨hlength', hwords'⟩ := h'
    apply List.ext_getElem?
    intro k
    by_cases hk : k / 2 < values.length
    · obtain ⟨hi, lo, hhi, hlo, hvalue⟩ := hwords _ _ (List.getElem?_eq_getElem hk)
      obtain ⟨hi', lo', hhi', hlo', hvalue'⟩ := hwords' _ _ (List.getElem?_eq_getElem hk)
      obtain ⟨rfl, rfl⟩ := Word.pair_inj (hvalue.symm.trans hvalue')
      obtain heven | hodd : k = 2 * (k / 2) ∨ k = 2 * (k / 2) + 1 := by omega
      · rw [heven, hhi, hhi']
      · rw [hodd, hlo, hlo']
    · rw [List.getElem?_eq_none (by omega), List.getElem?_eq_none (by omega)]

/-- The code of the function that reads a table. -/
def readCode : Table → UInt8
  | coils => 1
  | discreteInput => 2
  | holdingRegisters => 3
  | inputRegisters => 4
  | invalid => 0

theorem exists_readAccess (h : t ≠ .invalid) :
    ∃ a : Access, t.readAccess? = some a ∧ a.toByte = t.readCode ∧ a.code.requestMinimum = 4 := by
  cases t with
  | invalid => exact absurd rfl h
  | discreteInput | coils | inputRegisters | holdingRegisters => exact ⟨_, rfl, rfl, rfl⟩

end Table

theorem Request.eq_of_code_of_data {q q' : Request} (hcode : q.code = q'.code)
    (hdata : q.data = q'.data) : q = q' := by
  cases q
  cases q'
  cases hcode
  cases hdata
  rfl

namespace DataUnit

/-! ## What one request can ask for -/

/-- The unit can be read in one request. -/
structure CanBeRead (u : DataUnit) : Prop where
  table_ne : u.table ≠ .invalid
  range_le : u.start.toNat + u.count.toNat ≤ 65536
  one_le : 1 ≤ u.count.toNat
  le_limit : u.count.toNat ≤ if u.table.isBit then 2000 else 125

/-- The first values of the unit can be written in one request. -/
structure CanBeWritten (u : DataUnit) : Prop where
  table_mem : u.table = .coils ∨ u.table = .holdingRegisters
  range_le : u.start.toNat + u.count.toNat ≤ 65536
  le_values : u.count.toNat ≤ u.values.length
  one_le : 1 ≤ u.count.toNat
  le_limit : u.count.toNat ≤ if u.table.isBit then 1968 else 123

/-- The first values of one unit can be written, and the other unit read, in one request. -/
structure CanBeExchanged (read write : DataUnit) : Prop where
  read_table : read.table = .holdingRegisters
  write_table : write.table = .holdingRegisters
  read_range : read.start.toNat + read.count.toNat ≤ 65536
  write_range : write.start.toNat + write.count.toNat ≤ 65536
  le_values : write.count.toNat ≤ write.values.length
  read_pos : 1 ≤ read.count.toNat
  read_limit : read.count.toNat ≤ 125
  write_pos : 1 ≤ write.count.toNat
  write_limit : write.count.toNat ≤ 121

/-! ## What the request looks like -/

/-- The four bytes of a range: its address and how many elements it has, either with the more
significant byte first. -/
def RangeLayout (u : DataUnit) (bytes : List UInt8) : Prop :=
  ∃ a₁ a₀ n₁ n₀ : UInt8, bytes = [a₁, a₀, n₁, n₀] ∧
    u.start.toNat = 256 * a₁.toNat + a₀.toNat ∧ u.count.toNat = 256 * n₁.toNat + n₀.toNat

/-- The bytes of the values to write, with their number in front. -/
def ValuesLayout (u : DataUnit) (bytes : List UInt8) : Prop :=
  ∃ size packed, bytes = size :: packed ∧ size.toNat = packed.length ∧
    u.table.Packs (u.values.take u.count.toNat) packed

/-- The four bytes of a single element to write: its address and its value. A coil has one of two
values. -/
def ElementLayout (u : DataUnit) (bytes : List UInt8) : Prop :=
  ∃ (a₁ a₀ v₁ v₀ : UInt8) (value : UInt16), bytes = [a₁, a₀, v₁, v₀] ∧
    u.start.toNat = 256 * a₁.toNat + a₀.toNat ∧ u.values.take u.count.toNat = [value] ∧
    if u.table.isBit then v₁ = (if value = 0 then 0x00 else 0xFF) ∧ v₀ = 0x00
    else value.toNat = 256 * v₁.toNat + v₀.toNat

/-- The request that reads a unit. -/
def ReadLayout (u : DataUnit) (q : Request) : Prop :=
  q.code = u.table.readCode ∧ u.RangeLayout q.data

/-- The request that writes a unit. A single element has a shorter layout and a code of its own. -/
def WriteLayout (u : DataUnit) (q : Request) : Prop :=
  if u.count = 1 then
    q.code = (if u.table.isBit then 5 else 6) ∧ u.ElementLayout q.data
  else
    q.code = (if u.table.isBit then 15 else 16) ∧
      ∃ range values, q.data = range ++ values ∧ u.RangeLayout range ∧ u.ValuesLayout values

/-- The request that writes one unit and reads another, whose range comes first. -/
def ExchangeLayout (read write : DataUnit) (q : Request) : Prop :=
  q.code = 23 ∧
    ∃ wanted range values, q.data = wanted ++ range ++ values ∧ read.RangeLayout wanted ∧
      write.RangeLayout range ∧ write.ValuesLayout values

/-! ## One request for each layout -/

variable {u : DataUnit} {bytes bytes' : List UInt8} {q q' : Request}

theorem RangeLayout.eq (h : u.RangeLayout bytes) (h' : u.RangeLayout bytes') : bytes = bytes' := by
  obtain ⟨a₁, a₀, n₁, n₀, rfl, hstart, hcount⟩ := h
  obtain ⟨a₁', a₀', n₁', n₀', rfl, hstart', hcount'⟩ := h'
  obtain ⟨rfl, rfl⟩ := Word.pair_inj (hstart.symm.trans hstart')
  obtain ⟨rfl, rfl⟩ := Word.pair_inj (hcount.symm.trans hcount')
  rfl

theorem ValuesLayout.eq (h : u.ValuesLayout bytes) (h' : u.ValuesLayout bytes') :
    bytes = bytes' := by
  obtain ⟨size, packed, rfl, hsize, hpacks⟩ := h
  obtain ⟨size', packed', rfl, hsize', hpacks'⟩ := h'
  obtain rfl := hpacks.eq hpacks'
  obtain rfl := UInt8.toNat_inj.mp (hsize.trans hsize'.symm)
  rfl

theorem ElementLayout.eq (h : u.ElementLayout bytes) (h' : u.ElementLayout bytes') :
    bytes = bytes' := by
  obtain ⟨a₁, a₀, v₁, v₀, value, rfl, hstart, hvalue, hword⟩ := h
  obtain ⟨a₁', a₀', v₁', v₀', value', rfl, hstart', hvalue', hword'⟩ := h'
  obtain ⟨rfl, rfl⟩ := Word.pair_inj (hstart.symm.trans hstart')
  obtain rfl := List.singleton_inj.mp (hvalue.symm.trans hvalue')
  by_cases hbit : u.table.isBit
  · rw [if_pos hbit] at hword hword'
    rw [hword.1, hword.2, hword'.1, hword'.2]
  · rw [if_neg hbit] at hword hword'
    obtain ⟨rfl, rfl⟩ := Word.pair_inj (hword.symm.trans hword')
    rfl

theorem ReadLayout.eq (h : u.ReadLayout q) (h' : u.ReadLayout q') : q = q' :=
  Request.eq_of_code_of_data (h.1.trans h'.1.symm) (h.2.eq h'.2)

theorem WriteLayout.eq (h : u.WriteLayout q) (h' : u.WriteLayout q') : q = q' := by
  unfold WriteLayout at h h'
  split at h
  · rename_i hone
    rw [if_pos hone] at h'
    exact Request.eq_of_code_of_data (h.1.trans h'.1.symm) (h.2.eq h'.2)
  · rename_i hmany
    rw [if_neg hmany] at h'
    obtain ⟨hcode, range, values, hdata, hrange, hvalues⟩ := h
    obtain ⟨hcode', range', values', hdata', hrange', hvalues'⟩ := h'
    apply Request.eq_of_code_of_data (hcode.trans hcode'.symm)
    rw [hdata, hdata', hrange.eq hrange', hvalues.eq hvalues']

theorem ExchangeLayout.eq {write : DataUnit} (h : u.ExchangeLayout write q)
    (h' : u.ExchangeLayout write q') : q = q' := by
  obtain ⟨hcode, wanted, range, values, hdata, hwanted, hrange, hvalues⟩ := h
  obtain ⟨hcode', wanted', range', values', hdata', hwanted', hrange', hvalues'⟩ := h'
  apply Request.eq_of_code_of_data (hcode.trans hcode'.symm)
  rw [hdata, hdata', hwanted.eq hwanted', hrange.eq hrange', hvalues.eq hvalues']

end DataUnit

/-- The request is built when there is one to build. Unless `expressible` it is the request without
code and data, which refuses; otherwise it is valid, stays below the most that a payload can have,
and is the one request with the given layout. -/
structure Request.IsExact (q : Request) (expressible : Prop) (layout : Request → Prop) : Prop where
  accepted_iff : q ≠ ⟨0, []⟩ ↔ expressible
  isValid : expressible → q.IsValid
  length_le : expressible → q.data.length ≤ 251
  layout_iff : expressible → ∀ q', layout q' ↔ q' = q

namespace Request

variable {q : Request} {expressible : Prop} {layout : Request → Prop}

theorem isExact_of (hrefused : q ≠ .invalid → expressible)
    (haccepted : expressible → q.IsValid ∧ q.data.length ≤ 251 ∧ layout q)
    (hunique : ∀ {q q'}, layout q → layout q' → q = q') : q.IsExact expressible layout where
  accepted_iff := ⟨hrefused, fun h => ne_invalid_of_isValid (haccepted h).1⟩
  isValid h := (haccepted h).1
  length_le h := (haccepted h).2.1
  layout_iff h q' := by
    have hlayout := (haccepted h).2.2
    exact ⟨fun hq' => hunique hq' hlayout, fun heq => heq ▸ hlayout⟩

/-- A request for a data access is valid as soon as its payload has a length that fits. -/
theorem isValid_of_access {a : Access} (hcode : q.code = a.toByte)
    (hmin : a.code.requestMinimum ≤ q.data.length) (hmax : q.data.length ≤ 251) : q.IsValid := by
  have hpos : 0 < a.toByte := by
    cases a <;> decide
  have hpublic : a.toByte < 0x80 := by
    cases a <;> decide
  have hminimum : q.minimum = a.code.requestMinimum := by
    rw [minimum, function?, hcode, Access.toByte, FunctionCode.ofByte?_toByte]
  exact ⟨hcode ▸ hpos, hcode ▸ hpublic, hminimum ▸ hmin, Nat.le_succ_of_le hmax⟩

end Request

namespace DataUnit

variable {u : DataUnit}

theorem isValid_of_bounds (htable : u.table ≠ .invalid)
    (hrange : u.start.toNat + u.count.toNat ≤ 65536) (hpos : 1 ≤ u.count.toNat) : u.IsValid :=
  ⟨htable, UInt16.lt_iff_toNat_lt.mpr hpos, hrange⟩

@[simp] theorem length_rangeBytes (u : DataUnit) : u.rangeBytes.length = 4 := rfl

theorem rangeLayout_rangeBytes (u : DataUnit) : u.RangeLayout u.rangeBytes := by
  refine ⟨_, _, _, _, rfl, ?_, ?_⟩
  · exact Word.toNat_eq_high_low u.start
  · exact Word.toNat_eq_high_low u.count

/-! ## Reading -/

theorem CanBeRead.readRequest_eq (h : u.CanBeRead) :
    ∃ a : Access, u.readRequest = ⟨a.toByte, u.rangeBytes⟩ ∧ a.toByte = u.table.readCode ∧
      a.code.requestMinimum = 4 := by
  obtain ⟨a, haccess, hcode, hmin⟩ := Table.exists_readAccess h.table_ne
  refine ⟨a, ?_, hcode, hmin⟩
  rw [readRequest, haccess]
  exact if_pos ⟨isValid_of_bounds h.table_ne h.range_le h.one_le, h.le_limit⟩

theorem CanBeRead.layout (h : u.CanBeRead) :
    let q := u.readRequest
    q.IsValid ∧ q.data.length ≤ 251 ∧ u.ReadLayout q := by
  obtain ⟨a, hrequest, hcode, hmin⟩ := h.readRequest_eq
  intro q
  have hq : q = ⟨a.toByte, u.rangeBytes⟩ := hrequest
  have hlength : q.data.length = 4 := by rw [hq, length_rangeBytes]
  have hvalid : q.IsValid := Request.isValid_of_access (a := a) (by rw [hq]) (by omega) (by omega)
  have hlayout : u.ReadLayout q := by
    rw [hq]
    exact ⟨hcode, rangeLayout_rangeBytes u⟩
  exact ⟨hvalid, by omega, hlayout⟩

theorem readRequest_isExact (u : DataUnit) :
    u.readRequest.IsExact u.CanBeRead u.ReadLayout := by
  apply Request.isExact_of
  · intro hbuilt
    obtain ⟨a, -, hvalid, hlimit, -⟩ := readRequest_of_ne_invalid hbuilt
    exact ⟨hvalid.1, hvalid.2.2, count_pos_of_isValid hvalid, hlimit⟩
  · exact CanBeRead.layout
  · exact ReadLayout.eq

/-! ## Writing -/

theorem CanBeWritten.isWritable (h : u.CanBeWritten) : u.IsWritable := by
  have htable : u.table ≠ .invalid := by
    obtain htable | htable := h.table_mem <;> rw [htable] <;> decide
  exact ⟨isValid_of_bounds htable h.range_le h.one_le, h.le_values⟩

theorem WriteForm.canBeWritten {q : Request} (hform : u.WriteForm q) (h : u.IsWritable) :
    u.CanBeWritten := by
  have hpos := count_pos_of_isValid h.1
  have hlength := length_content h
  cases hform with
  | coil value htable hcontent =>
    refine ⟨.inl htable, h.1.2.2, h.2, hpos, ?_⟩
    rw [count_eq_one h hcontent, htable]
    decide
  | register value htable hcontent =>
    refine ⟨.inr htable, h.1.2.2, h.2, hpos, ?_⟩
    rw [count_eq_one h hcontent, htable]
    decide
  | coils htable hmin hmax =>
    refine ⟨.inl htable, h.1.2.2, h.2, hpos, ?_⟩
    rw [← hlength, htable]
    exact hmax
  | registers htable hmin hmax =>
    refine ⟨.inr htable, h.1.2.2, h.2, hpos, ?_⟩
    rw [← hlength, htable]
    exact hmax

theorem CanBeWritten.writeRequest_ne_invalid (h : u.CanBeWritten) : u.writeRequest ≠ .invalid := by
  have hlimit := h.le_limit
  rw [← length_content h.isWritable] at hlimit
  have haccess (a : Access) (data : List UInt8) : (⟨a.toByte, data⟩ : Request) ≠ .invalid := by
    cases a <;> nofun
  unfold writeRequest
  rw [if_pos h.isWritable]
  split
  · exact haccess _ _
  · rename_i htable hmany
    rw [htable] at hlimit
    have hfits : u.content.length ≤ coilWriteLimit := hlimit
    rw [if_pos hfits]
    exact haccess _ _
  · exact haccess _ _
  · rename_i htable hmany
    rw [htable] at hlimit
    have hfits : u.content.length ≤ registerWriteLimit := hlimit
    rw [if_pos hfits]
    exact haccess _ _
  · rename_i hcoils hregisters _ _
    exact absurd h.table_mem (not_or.mpr ⟨hcoils, hregisters⟩)

theorem valuesLayout_of_packs {packed : List UInt8} (hsize : packed.length ≤ 246)
    (hpacks : u.table.Packs u.content packed) :
    u.ValuesLayout (UInt8.ofNat packed.length :: packed) :=
  ⟨_, packed, rfl, UInt8.toNat_ofNat_of_lt' (Nat.lt_of_le_of_lt hsize (by decide)), hpacks⟩

theorem singleWriteRequest_layout {a : Access} {datum : Datum} (hmin : a.code.requestMinimum = 4)
    (hcode : a.toByte = if u.table.isBit then 5 else 6) (hone : u.count = 1)
    (helement : u.ElementLayout (Word.bytes u.start ++ Word.bytes datum.word)) :
    let q := singleWriteRequest a u.start datum
    q.IsValid ∧ q.data.length ≤ 251 ∧ u.WriteLayout q := by
  intro q
  have hlength : q.data.length = 4 := rfl
  have hvalid : q.IsValid := Request.isValid_of_access (a := a) rfl (by omega) (by omega)
  have hlayout : u.WriteLayout q := by
    rw [WriteLayout, if_pos hone]
    exact ⟨hcode, helement⟩
  exact ⟨hvalid, by omega, hlayout⟩

theorem multipleWriteRequest_layout {a : Access} {packed : List UInt8}
    (hmin : a.code.requestMinimum ≤ packed.length + 5) (hmax : packed.length ≤ 246)
    (hcode : a.toByte = if u.table.isBit then 15 else 16) (hmany : u.count ≠ 1)
    (hpacks : u.table.Packs u.content packed) :
    let q := multipleWriteRequest a u packed
    q.IsValid ∧ q.data.length ≤ 251 ∧ u.WriteLayout q := by
  intro q
  have hlength : q.data.length = packed.length + 5 := by
    simp only [q, multipleWriteRequest, List.length_append, length_rangeBytes, List.length_cons]
    omega
  have hvalid : q.IsValid := Request.isValid_of_access (a := a) rfl (by omega) (by omega)
  have hlayout : u.WriteLayout q := by
    rw [WriteLayout, if_neg hmany]
    exact ⟨hcode, _, _, rfl, rangeLayout_rangeBytes u, valuesLayout_of_packs hmax hpacks⟩
  exact ⟨hvalid, by omega, hlayout⟩

/-- The form of a request that writes a unit has the layout of such a request. -/
theorem WriteForm.layout {q : Request} (hform : u.WriteForm q) (h : u.IsWritable) :
    q.IsValid ∧ q.data.length ≤ 251 ∧ u.WriteLayout q := by
  have hlength := length_content h
  have hmany (hmin : 2 ≤ u.content.length) : u.count ≠ 1 := by
    intro hone
    rw [hlength, hone] at hmin
    exact absurd hmin (by decide)
  cases hform with
  | coil value htable hcontent =>
    have hbit : u.table.isBit := by rw [htable]; rfl
    refine singleWriteRequest_layout rfl (by rw [htable]; rfl) (count_eq_one h hcontent) ?_
    rw [Datum.bytes_word_coil]
    refine ⟨_, _, _, _, value, rfl, ?_, hcontent, ?_⟩
    · exact Word.toNat_eq_high_low u.start
    · rw [if_pos hbit]
      by_cases hzero : value = 0
      · rw [hzero]
        exact ⟨rfl, rfl⟩
      · rw [if_pos (bne_iff_ne.mpr hzero), if_neg hzero]
        exact ⟨rfl, rfl⟩
  | register value htable hcontent =>
    have hbit : ¬ u.table.isBit := by rw [htable]; decide
    refine singleWriteRequest_layout rfl (by rw [htable]; rfl) (count_eq_one h hcontent) ?_
    refine ⟨_, _, _, _, value, rfl, ?_, hcontent, ?_⟩
    · exact Word.toNat_eq_high_low u.start
    · rw [if_neg hbit]
      exact Word.toNat_eq_high_low value
  | coils htable hmin hmax =>
    have hbit : u.table.isBit := by rw [htable]; rfl
    have hpacked := Coils.length_pack u.content
    unfold coilWriteLimit at hmax
    unfold Coils.byteCount at hpacked
    refine multipleWriteRequest_layout ?_ (by omega) (by rw [htable]; rfl) (hmany hmin)
      (Table.packs_pack_coils hbit _)
    show 6 ≤ _
    omega
  | registers htable hmin hmax =>
    have hbit : ¬ u.table.isBit := by rw [htable]; decide
    have hpacked := Registers.length_pack u.content
    unfold registerWriteLimit at hmax
    refine multipleWriteRequest_layout ?_ (by omega) (by rw [htable]; rfl) (hmany hmin)
      (Table.packs_pack_registers hbit _)
    show 7 ≤ _
    omega

theorem writeRequest_isExact (u : DataUnit) :
    u.writeRequest.IsExact u.CanBeWritten u.WriteLayout := by
  apply Request.isExact_of
  · intro hbuilt
    obtain ⟨hwritable, hform⟩ := writeRequest_of_ne_invalid hbuilt
    exact hform.canBeWritten hwritable
  · intro h
    obtain ⟨hwritable, hform⟩ := writeRequest_of_ne_invalid h.writeRequest_ne_invalid
    exact hform.layout hwritable
  · exact WriteLayout.eq

/-! ## Exchanging -/

variable {read write : DataUnit}

theorem canBeExchanged_iff :
    read.CanBeExchanged write ↔
      read.table = .holdingRegisters ∧ write.table = .holdingRegisters ∧
        read.IsValid ∧ write.IsWritable ∧
        read.count.toNat ≤ exchangeReadLimit ∧ write.count.toNat ≤ exchangeWriteLimit := by
  constructor
  · intro h
    have hread : read.table ≠ .invalid := by rw [h.read_table]; decide
    have hwrite : write.table ≠ .invalid := by rw [h.write_table]; decide
    exact ⟨h.read_table, h.write_table, isValid_of_bounds hread h.read_range h.read_pos,
      ⟨isValid_of_bounds hwrite h.write_range h.write_pos, h.le_values⟩, h.read_limit,
      h.write_limit⟩
  · intro ⟨hread, hwrite, hvalid, hwritable, hreadLimit, hwriteLimit⟩
    exact ⟨hread, hwrite, hvalid.2.2, hwritable.1.2.2, hwritable.2, count_pos_of_isValid hvalid,
      hreadLimit, count_pos_of_isValid hwritable.1, hwriteLimit⟩

theorem CanBeExchanged.exchangeRequest_eq (h : read.CanBeExchanged write) :
    read.exchangeRequest write =
      let packed := Registers.pack write.content
      ⟨Access.readWriteMultipleRegisters.toByte,
        read.rangeBytes ++ write.rangeBytes ++ UInt8.ofNat packed.length :: packed⟩ :=
  if_pos (canBeExchanged_iff.mp h)

theorem CanBeExchanged.layout (h : read.CanBeExchanged write) :
    let q := read.exchangeRequest write
    q.IsValid ∧ q.data.length ≤ 251 ∧ read.ExchangeLayout write q := by
  intro q
  have hq : q = _ := h.exchangeRequest_eq
  have hbit : ¬ write.table.isBit := by rw [h.write_table]; decide
  have hwritable := (canBeExchanged_iff.mp h).2.2.2.1
  have hpos := h.write_pos
  have hlimit := h.write_limit
  have hpacked : (Registers.pack write.content).length = 2 * write.count.toNat := by
    rw [Registers.length_pack, length_content hwritable]
  have hlength : q.data.length = 2 * write.count.toNat + 9 := by
    rw [hq]
    simp only [List.length_append, length_rangeBytes, List.length_cons, hpacked]
    omega
  have hmin : Access.readWriteMultipleRegisters.code.requestMinimum = 11 := rfl
  have hvalid : q.IsValid :=
    Request.isValid_of_access (a := .readWriteMultipleRegisters) (by rw [hq]) (by omega) (by omega)
  have hvalues := valuesLayout_of_packs (by omega) (Table.packs_pack_registers hbit write.content)
  have hlayout : read.ExchangeLayout write q := by
    rw [hq]
    exact ⟨rfl, _, _, _, rfl, rangeLayout_rangeBytes read, rangeLayout_rangeBytes write, hvalues⟩
  exact ⟨hvalid, by omega, hlayout⟩

theorem exchangeRequest_isExact (read write : DataUnit) :
    (read.exchangeRequest write).IsExact (read.CanBeExchanged write)
      (read.ExchangeLayout write) := by
  apply Request.isExact_of
  · intro hbuilt
    by_cases h : read.CanBeExchanged write
    · exact h
    · rw [canBeExchanged_iff] at h
      exact absurd (if_neg h) hbuilt
  · exact CanBeExchanged.layout
  · exact ExchangeLayout.eq

end DataUnit

/-- A request is built for exactly the units that can be read, written or exchanged in one request.
It is valid, has the code that goes with the table and the number of elements, and says in its bytes
what the units say. All other units are refused with the request that has no code and no data. -/
theorem building_accepts_exactly_the_expressible_units :
    (∀ u : DataUnit, u.readRequest.IsExact u.CanBeRead u.ReadLayout) ∧
    (∀ u : DataUnit, u.writeRequest.IsExact u.CanBeWritten u.WriteLayout) ∧
    (∀ read write : DataUnit, (read.exchangeRequest write).IsExact (read.CanBeExchanged write)
      (read.ExchangeLayout write)) :=
  ⟨DataUnit.readRequest_isExact, DataUnit.writeRequest_isExact, DataUnit.exchangeRequest_isExact⟩

end Modbus
