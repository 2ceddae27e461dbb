import Modbus.Proofs.Layouts
import Modbus.Session.Send

/-!
# What a request says

Of the units that a command is made of, a request takes up what it asks the server for and nothing
else: the range, and the values to write as far as the range goes, those of coils only as on or off.
`Command.AsksSame` compares two commands by that.

The layout of a request is fixed by what the command asks for (`Command.AsksSame.hasLayout`), and
fixes it in turn (`Command.HasLayout.asksSame`). So commands that ask for the same have one request
and others have different ones, which is `requests_are_equal_exactly_if_the_same_is_asked`.
-/

namespace Modbus

/-! ## Values that are written alike -/

/-- The values mean the same to a table: registers are equal, coils on in the same places. -/
def Table.SameValues (t : Table) (values values' : List UInt16) : Prop :=
  if t.isBit then values.map (· != 0) = values'.map (· != 0) else values = values'

instance (t : Table) (values values' : List UInt16) : Decidable (t.SameValues values values') :=
  inferInstanceAs (Decidable (if t.isBit = true then
    values.map (· != 0) = values'.map (· != 0) else values = values'))

namespace Table

variable {t : Table} {values values' : List UInt16} {bytes : List UInt8}

theorem exists_ne_zero_iff {i : Nat} :
    (∃ value, values[i]? = some value ∧ value ≠ 0) ↔ (values.map (· != 0))[i]? = some true := by
  simp

/-- What the values mean is all that is written of them. -/
theorem Packs.congr (h : t.Packs values bytes) (hsame : t.SameValues values values') :
    t.Packs values' bytes := by
  unfold SameValues at hsame
  split at hsame
  · rename_i ht
    rw [Packs, if_pos ht] at h ⊢
    have hlength : values.length = values'.length := by
      simpa using congrArg List.length hsame
    refine ⟨hlength ▸ h.1, fun i b hb => ?_⟩
    rw [h.2 i b hb, exists_ne_zero_iff, hsame, exists_ne_zero_iff]
  · exact hsame ▸ h

/-- What the values mean can be told from the bytes, once their number is known. -/
theorem Packs.sameValues (h : t.Packs values bytes) (h' : t.Packs values' bytes)
    (hlength : values.length = values'.length) : t.SameValues values values' := by
  unfold SameValues
  split
  · rename_i ht
    rw [Packs, if_pos ht] at h h'
    apply List.ext_getElem?
    intro i
    by_cases hi : i < values.length
    · have hi' : i < values'.length := hlength ▸ hi
      have hbyte : i / 8 < bytes.length := by omega
      have hstate := h.2 i _ (List.getElem?_eq_getElem hbyte)
      have hstate' := h'.2 i _ (List.getElem?_eq_getElem hbyte)
      rw [exists_ne_zero_iff] at hstate hstate'
      have hboth := hstate.symm.trans hstate'
      rw [List.getElem?_map, List.getElem?_map, List.getElem?_eq_getElem hi,
        List.getElem?_eq_getElem hi'] at hboth ⊢
      simp only [Option.map_some, Option.some.injEq] at hboth ⊢
      exact Bool.eq_iff_iff.mpr hboth
    · rw [List.getElem?_eq_none (by simpa using hi),
        List.getElem?_eq_none (by simpa [← hlength] using hi)]
  · rename_i ht
    rw [Packs, if_neg ht] at h h'
    rw [← unpack_registers_of_carries ht h, unpack_registers_of_carries ht h']

theorem readCode_inj {t' : Table} : t.readCode = t'.readCode ↔ t = t' := by
  constructor
  · cases t <;> cases t' <;> simp [readCode]
  · rintro rfl
    rfl

theorem readCode_le (t : Table) : t.readCode.toNat ≤ 4 := by
  cases t <;> decide

end Table

namespace DataUnit

/-! ## Units that say the same -/

/-- The units are the same range of addresses. -/
structure SameRange (u v : DataUnit) : Prop where
  start_eq : u.start = v.start
  count_eq : u.count = v.count

/-- There is the same to write for both units: the values of a range of one table, without those
behind the end of the range. -/
structure SameContent (u v : DataUnit) : Prop where
  table_eq : u.table = v.table
  range : u.SameRange v
  values : u.table.SameValues (u.values.take u.count.toNat) (v.values.take v.count.toNat)

variable {u v : DataUnit} {bytes : List UInt8} {q : Request}

theorem RangeLayout.length_eq (h : u.RangeLayout bytes) : bytes.length = 4 := by
  obtain ⟨_, _, _, _, rfl, -⟩ := h
  rfl

theorem RangeLayout.congr (h : u.RangeLayout bytes) (hsame : u.SameRange v) :
    v.RangeLayout bytes := by
  unfold RangeLayout at h ⊢
  rwa [← hsame.start_eq, ← hsame.count_eq]

theorem RangeLayout.sameRange (h : u.RangeLayout bytes) (h' : v.RangeLayout bytes) :
    u.SameRange v := by
  obtain ⟨a₁, a₀, n₁, n₀, rfl, hstart, hcount⟩ := h
  obtain ⟨_, _, _, _, ⟨⟩, hstart', hcount'⟩ := h'
  exact ⟨UInt16.toNat_inj.mp (hstart.trans hstart'.symm),
    UInt16.toNat_inj.mp (hcount.trans hcount'.symm)⟩

theorem ValuesLayout.congr (h : u.ValuesLayout bytes) (hsame : u.SameContent v) :
    v.ValuesLayout bytes := by
  obtain ⟨size, packed, rfl, hsize, hpacks⟩ := h
  refine ⟨size, packed, rfl, hsize, ?_⟩
  rw [← hsame.table_eq]
  exact hpacks.congr hsame.values

theorem ValuesLayout.sameContent (h : u.ValuesLayout bytes) (h' : v.ValuesLayout bytes)
    (htable : u.table = v.table) (hrange : u.SameRange v)
    (hu : u.count.toNat ≤ u.values.length) (hv : v.count.toNat ≤ v.values.length) :
    u.SameContent v := by
  obtain ⟨size, packed, rfl, -, hpacks⟩ := h
  obtain ⟨_, _, ⟨⟩, -, hpacks'⟩ := h'
  rw [← htable] at hpacks'
  refine ⟨htable, hrange, hpacks.sameValues hpacks' ?_⟩
  rw [List.length_take_of_le hu, List.length_take_of_le hv, hrange.count_eq]

theorem ElementLayout.congr (h : u.ElementLayout bytes) (hsame : u.SameContent v) :
    v.ElementLayout bytes := by
  obtain ⟨a₁, a₀, v₁, v₀, value, rfl, hstart, hvalue, hword⟩ := h
  have hvalues := hsame.values
  rw [hvalue] at hvalues
  unfold ElementLayout
  rw [← hsame.table_eq, ← hsame.range.start_eq]
  by_cases hbit : u.table.isBit
  · rw [Table.SameValues, if_pos hbit] at hvalues
    obtain ⟨value', hvalue', hstate⟩ := List.map_eq_singleton_iff.mp hvalues.symm
    refine ⟨a₁, a₀, v₁, v₀, value', rfl, hstart, hvalue', ?_⟩
    rw [if_pos hbit] at hword ⊢
    have hzero : value' = 0 ↔ value = 0 := by
      simpa using congrArg (· = false) hstate
    simpa only [hzero] using hword
  · rw [Table.SameValues, if_neg hbit] at hvalues
    exact ⟨a₁, a₀, v₁, v₀, value, rfl, hstart, hvalues.symm, hword⟩

theorem ElementLayout.sameContent (h : u.ElementLayout bytes) (h' : v.ElementLayout bytes)
    (htable : u.table = v.table) (hcount : u.count = v.count) : u.SameContent v := by
  obtain ⟨a₁, a₀, v₁, v₀, value, rfl, hstart, hvalue, hword⟩ := h
  obtain ⟨_, _, _, _, value', ⟨⟩, hstart', hvalue', hword'⟩ := h'
  refine ⟨htable, ⟨UInt16.toNat_inj.mp (hstart.trans hstart'.symm), hcount⟩, ?_⟩
  rw [hvalue, hvalue', Table.SameValues]
  rw [← htable] at hword'
  by_cases hbit : u.table.isBit
  · rw [if_pos hbit] at hword hword' ⊢
    have hbyte := hword.1.symm.trans hword'.1
    have hzero : value = 0 ↔ value' = 0 := by
      by_cases hvalue : value = 0 <;> by_cases hvalue' : value' = 0 <;> simp_all
    rw [List.map_singleton, List.map_singleton, List.singleton_inj, bne, bne, Bool.not_inj_iff,
      Bool.eq_iff_iff, beq_iff_eq, beq_iff_eq]
    exact hzero
  · rw [if_neg hbit] at hword hword' ⊢
    rw [UInt16.toNat_inj.mp (hword.trans hword'.symm)]

theorem ReadLayout.congr (h : u.ReadLayout q) (htable : u.table = v.table)
    (hsame : u.SameRange v) : v.ReadLayout q :=
  ⟨htable ▸ h.1, h.2.congr hsame⟩

theorem WriteLayout.congr (h : u.WriteLayout q) (hsame : u.SameContent v) : v.WriteLayout q := by
  unfold WriteLayout at h ⊢
  rw [← hsame.range.count_eq, ← hsame.table_eq]
  split at h
  · rename_i hone
    rw [if_pos hone]
    exact ⟨h.1, h.2.congr hsame⟩
  · rename_i hmany
    rw [if_neg hmany]
    obtain ⟨hcode, range, values, hdata, hrange, hvalues⟩ := h
    exact ⟨hcode, range, values, hdata, hrange.congr hsame.range, hvalues.congr hsame⟩

theorem ExchangeLayout.congr {read read' write write' : DataUnit}
    (h : read.ExchangeLayout write q) (hread : read.SameRange read')
    (hwrite : write.SameContent write') : read'.ExchangeLayout write' q := by
  obtain ⟨hcode, wanted, range, values, hdata, hwanted, hrange, hvalues⟩ := h
  exact ⟨hcode, wanted, range, values, hdata, hwanted.congr hread, hrange.congr hwrite.range,
    hvalues.congr hwrite⟩

/-! ## Which kind of command a request comes from -/

theorem ReadLayout.code_le (h : u.ReadLayout q) : q.code.toNat ≤ 4 := by
  rw [h.1]
  exact u.table.readCode_le

theorem WriteLayout.code_eq (h : u.WriteLayout q) :
    q.code = if u.count = 1 then if u.table.isBit then 5 else 6
      else if u.table.isBit then 15 else 16 := by
  unfold WriteLayout at h
  split at h
  · rename_i hone
    rw [if_pos hone]
    exact h.1
  · rename_i hmany
    rw [if_neg hmany]
    exact h.1

theorem WriteLayout.code_bounds (h : u.WriteLayout q) :
    5 ≤ q.code.toNat ∧ q.code.toNat ≤ 16 := by
  rw [h.code_eq]
  split <;> split <;> decide

theorem ExchangeLayout.code_eq {write : DataUnit} (h : u.ExchangeLayout write q) :
    q.code.toNat = 23 := by
  rw [h.1]
  rfl

/-! ## What a request tells of its units -/

theorem ReadLayout.sameRange (h : u.ReadLayout q) (h' : v.ReadLayout q) :
    u.table = v.table ∧ u.SameRange v :=
  ⟨Table.readCode_inj.mp (h.1.symm.trans h'.1), h.2.sameRange h'.2⟩

/-- Of the two tables that can be written, one has bits and the other has not. -/
theorem CanBeWritten.table_eq_of_isBit (hu : u.CanBeWritten) (hv : v.CanBeWritten)
    (hbit : u.table.isBit ↔ v.table.isBit) : u.table = v.table := by
  obtain hcoils | hregisters := hu.table_mem <;> obtain hcoils' | hregisters' := hv.table_mem <;>
    simp_all [Table.isBit]

/-- The four codes tell whether the request is for a single element, and whether for bits. -/
theorem WriteLayout.kind_iff (h : u.WriteLayout q) (h' : v.WriteLayout q) :
    (u.count = 1 ↔ v.count = 1) ∧ (u.table.isBit ↔ v.table.isBit) := by
  have hcode := h.code_eq.symm.trans h'.code_eq
  by_cases hone : u.count = 1 <;> by_cases hone' : v.count = 1 <;>
    by_cases hbit : u.table.isBit <;> by_cases hbit' : v.table.isBit <;>
    simp only [hone, hone', hbit, hbit', if_true, if_false, iff_self, and_self] at hcode ⊢ <;>
    exact absurd hcode (by decide)

theorem WriteLayout.sameContent (h : u.WriteLayout q) (h' : v.WriteLayout q)
    (hu : u.CanBeWritten) (hv : v.CanBeWritten) : u.SameContent v := by
  obtain ⟨hsingle, hbit⟩ := h.kind_iff h'
  have htable : u.table = v.table := hu.table_eq_of_isBit hv hbit
  unfold WriteLayout at h h'
  by_cases hone : u.count = 1
  · have hone' : v.count = 1 := hsingle.mp hone
    rw [if_pos hone] at h
    rw [if_pos hone'] at h'
    exact h.2.sameContent h'.2 htable (hone.trans hone'.symm)
  · rw [if_neg hone] at h
    rw [if_neg (mt hsingle.mpr hone)] at h'
    obtain ⟨-, range, values, hdata, hrange, hvalues⟩ := h
    obtain ⟨-, range', values', hdata', hrange', hvalues'⟩ := h'
    obtain ⟨rfl, rfl⟩ := List.append_inj (hdata.symm.trans hdata')
      (hrange.length_eq.trans hrange'.length_eq.symm)
    exact hvalues.sameContent hvalues' htable (hrange.sameRange hrange') hu.le_values hv.le_values

theorem ExchangeLayout.sameContent {read read' write write' : DataUnit}
    (h : read.ExchangeLayout write q) (h' : read'.ExchangeLayout write' q)
    (hc : read.CanBeExchanged write) (hc' : read'.CanBeExchanged write') :
    read.SameRange read' ∧ write.SameContent write' := by
  obtain ⟨-, wanted, range, values, hdata, hwanted, hrange, hvalues⟩ := h
  obtain ⟨-, wanted', range', values', hdata', hwanted', hrange', hvalues'⟩ := h'
  have hlength : (wanted ++ range).length = (wanted' ++ range').length := by
    rw [List.length_append, List.length_append, hwanted.length_eq, hwanted'.length_eq,
      hrange.length_eq, hrange'.length_eq]
  obtain ⟨hranges, rfl⟩ := List.append_inj (hdata.symm.trans hdata') hlength
  obtain ⟨rfl, rfl⟩ := List.append_inj hranges (hwanted.length_eq.trans hwanted'.length_eq.symm)
  exact ⟨hwanted.sameRange hwanted',
    hvalues.sameContent hvalues' (hc.write_table.trans hc'.write_table.symm)
      (hrange.sameRange hrange') hc.le_values hc'.le_values⟩

end DataUnit

/-! ## Commands that ask for the same -/

namespace Command

/-- The commands ask a server for the same: to read the same range of the same table, to write the
same there, or both. -/
def AsksSame : Command → Command → Prop
  | read u, read v => u.table = v.table ∧ u.SameRange v
  | write u, write v => u.SameContent v
  | exchange r w, exchange r' w' => r.SameRange r' ∧ w.SameContent w'
  | _, _ => False

/-- What is asked for can be asked in one request. -/
def IsExpressible : Command → Prop
  | read u => u.CanBeRead
  | write u => u.CanBeWritten
  | exchange r w => r.CanBeExchanged w
  | raw _ => False

/-- The layout of the request for a command that has one built. -/
def HasLayout : Command → Request → Prop
  | read u => u.ReadLayout
  | write u => u.WriteLayout
  | exchange r w => r.ExchangeLayout w
  | raw _ => fun _ => False

variable {c c' : Command} {q : Request}

theorem request_isExact (hkind : c.kind = .common) :
    c.request.IsExact c.IsExpressible c.HasLayout := by
  cases c with
  | read u => exact u.readRequest_isExact
  | write u => exact u.writeRequest_isExact
  | exchange r w => exact r.exchangeRequest_isExact w
  | raw q => cases hkind

/-- A layout depends on nothing but what is asked for. -/
theorem AsksSame.hasLayout (hsame : c.AsksSame c') (h : c.HasLayout q) : c'.HasLayout q := by
  match c, c' with
  | read u, read v => exact DataUnit.ReadLayout.congr h hsame.1 hsame.2
  | write u, write v => exact DataUnit.WriteLayout.congr h hsame
  | exchange r w, exchange r' w' => exact DataUnit.ExchangeLayout.congr h hsame.1 hsame.2

/-- A layout tells what is asked for. -/
theorem HasLayout.asksSame (h : c.HasLayout q) (h' : c'.HasLayout q) (hc : c.IsExpressible)
    (hc' : c'.IsExpressible) : c.AsksSame c' := by
  match c, c' with
  | read u, read v => exact DataUnit.ReadLayout.sameRange h h'
  | write u, write v => exact DataUnit.WriteLayout.sameContent h h' hc hc'
  | exchange r w, exchange r' w' => exact DataUnit.ExchangeLayout.sameContent h h' hc hc'
  | read u, write v | write v, read u =>
    have hread := DataUnit.ReadLayout.code_le ‹u.ReadLayout q›
    have hwrite := DataUnit.WriteLayout.code_bounds ‹v.WriteLayout q›
    omega
  | read u, exchange r w | exchange r w, read u =>
    have hread := DataUnit.ReadLayout.code_le ‹u.ReadLayout q›
    have hexchange := DataUnit.ExchangeLayout.code_eq ‹r.ExchangeLayout w q›
    omega
  | write v, exchange r w | exchange r w, write v =>
    have hwrite := DataUnit.WriteLayout.code_bounds ‹v.WriteLayout q›
    have hexchange := DataUnit.ExchangeLayout.code_eq ‹r.ExchangeLayout w q›
    omega

end Command

/-- Two requests that have been built for commands are equal, and so are their bytes, exactly if the
commands ask for the same. -/
theorem requests_are_equal_exactly_if_the_same_is_asked {c c' : Command}
    (hkind : c.kind = .common) (hkind' : c'.kind = .common) (hbuilt : c.request ≠ ⟨0, []⟩)
    (hbuilt' : c'.request ≠ ⟨0, []⟩) :
    (c.request = c'.request ↔ c.AsksSame c') ∧
    ∃ bytes bytes', c.request.toBytes = .ok bytes ∧ c'.request.toBytes = .ok bytes' ∧
      (bytes = bytes' ↔ c.AsksSame c') := by
  have hexact := Command.request_isExact hkind
  have hexact' := Command.request_isExact hkind'
  have hc := hexact.accepted_iff.mp hbuilt
  have hc' := hexact'.accepted_iff.mp hbuilt'
  have hlayout : c.HasLayout c.request := (hexact.layout_iff hc _).mpr rfl
  have hlayout' : c'.HasLayout c'.request := (hexact'.layout_iff hc' _).mpr rfl
  have hrequests : c.request = c'.request ↔ c.AsksSame c' := by
    constructor
    · intro heq
      exact hlayout.asksSame (heq ▸ hlayout') hc hc'
    · intro hsame
      exact (hexact'.layout_iff hc' _).mp (hsame.hasLayout hlayout)
  have hbytes := Request.toBytes_of_isValid (hexact.isValid hc)
  have hbytes' := Request.toBytes_of_isValid (hexact'.isValid hc')
  refine ⟨hrequests, _, _, hbytes, hbytes', ?_⟩
  rw [← hrequests, List.cons.injEq, Request.mk.injEq]

/-- Three coils are written and read, two registers are written and exchanged. Values that are not
written do not matter, nor does what makes a coil on; all else tells the requests apart, also those
of one kind from those of another. -/
theorem requests_for_three_coils_and_two_registers :
    let coils (values : List UInt16) : DataUnit :=
      { table := .coils, start := 5, count := 3, values }
    let registers (values : List UInt16) : DataUnit :=
      { table := .holdingRegisters, start := 5, count := 2, values }
    let write (values : List UInt16) : Command := .write (coils values)
    let read (u : DataUnit) : Command := .read u
    let exchange (old new : List UInt16) : Command := .exchange (registers old) (registers new)
    let commands : List Command :=
      [write [7, 0, 1, 9], write [1, 0, 2], write [1, 1, 2], .write (registers [1, 2]),
        read (coils [7, 0, 1, 9]), read (coils []), read (registers []),
        exchange [8] [1, 2], exchange [] [1, 2, 3], exchange [] [2, 1]]
    (∀ c ∈ commands, c.kind = .common ∧ c.request ≠ ⟨0, []⟩) ∧
      (write [7, 0, 1, 9]).request = (write [1, 0, 2]).request ∧
      (write [7, 0, 1, 9]).request ≠ (write [1, 1, 2]).request ∧
      (read (coils [7, 0, 1, 9])).request = (read (coils [])).request ∧
      (read (coils [])).request ≠ (read (registers [])).request ∧
      (exchange [8] [1, 2]).request = (exchange [] [1, 2, 3]).request ∧
      (exchange [] [1, 2, 3]).request ≠ (exchange [] [2, 1]).request ∧
      (read (coils [7, 0, 1, 9])).request ≠ (write [7, 0, 1, 9]).request ∧
      (read (registers [])).request ≠ (exchange [] [1, 2, 3]).request ∧
      (Command.write (registers [1, 2])).request ≠ (exchange [8] [1, 2]).request := by
  intro coils registers write read exchange commands
  have hbuilt : ∀ c ∈ commands, c.kind = .common ∧ c.request ≠ ⟨0, []⟩ := by decide
  have hiff (c : Command) (hc : c ∈ commands) (c' : Command) (hc' : c' ∈ commands) :
      c.request = c'.request ↔ c.AsksSame c' :=
    (requests_are_equal_exactly_if_the_same_is_asked (hbuilt c hc).1 (hbuilt c' hc').1
      (hbuilt c hc).2 (hbuilt c' hc').2).1
  refine ⟨hbuilt, ?_, ?_, ?_, ?_, ?_, ?_, ?_, ?_, ?_⟩
  · exact (hiff _ (by decide) _ (by decide)).mpr ⟨rfl, ⟨rfl, rfl⟩, by decide⟩
  · intro heq
    have hsame := (hiff _ (by decide) _ (by decide)).mp heq
    exact absurd hsame.values (by decide)
  · exact (hiff _ (by decide) _ (by decide)).mpr ⟨rfl, rfl, rfl⟩
  · intro heq
    have hsame := (hiff _ (by decide) _ (by decide)).mp heq
    exact absurd hsame.1 (by decide)
  · exact (hiff _ (by decide) _ (by decide)).mpr ⟨⟨rfl, rfl⟩, rfl, ⟨rfl, rfl⟩, by decide⟩
  · intro heq
    have hsame := (hiff _ (by decide) _ (by decide)).mp heq
    exact absurd hsame.2.values (by decide)
  -- Requests of different kinds never ask for the same.
  · exact fun heq => (hiff _ (by decide) _ (by decide)).mp heq
  · exact fun heq => (hiff _ (by decide) _ (by decide)).mp heq
  · exact fun heq => (hiff _ (by decide) _ (by decide)).mp heq

end Modbus
