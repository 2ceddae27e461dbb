import Modbus.Request.OfUnit

/-!
# What is behind a request

A request is built for a unit only if the unit can be expressed; else there is `Request.invalid`.
The lemmas here go from a request that was built, and so from a valid one, back to the unit: to its
range, its size, and the form that was chosen for it.
-/

namespace Modbus

theorem Request.ne_invalid_of_isValid {q : Request} (h : q.IsValid) : q ≠ invalid := by
  rintro rfl
  exact not_isValid_invalid h

theorem Datum.bytes_word_coil (on : Bool) :
    Word.bytes (coil on).word = [if on then 0xFF else 0x00, 0x00] := by
  cases on <;> rfl

namespace DataUnit

variable {u : DataUnit}

theorem count_pos_of_isValid (h : u.IsValid) : 0 < u.count.toNat := by
  have hpos := UInt16.lt_iff_toNat_lt.mp h.2.1
  simpa using hpos

theorem length_content (h : u.IsWritable) : u.content.length = u.count.toNat := by
  rw [content, List.length_take]
  exact Nat.min_eq_left h.2

theorem count_eq_one (h : u.IsWritable) {value : UInt16} (hcontent : u.content = [value]) :
    u.count = 1 := by
  apply UInt16.toNat_inj.mp
  rw [← length_content h, hcontent]
  rfl

/-! ## Reading -/

theorem readRequest_of_ne_invalid (h : u.readRequest ≠ .invalid) :
    ∃ a, u.table.readAccess? = some a ∧ u.IsValid ∧ u.count.toNat ≤ u.table.readLimit ∧
      u.readRequest = ⟨a.toByte, u.rangeBytes⟩ := by
  unfold readRequest at h ⊢
  split at h
  · rename_i a ha
    split at h
    · rename_i hfits
      exact ⟨a, ha, hfits.1, hfits.2, if_pos hfits⟩
    · exact absurd rfl h
  · exact absurd rfl h

theorem readRequest_of_isValid (h : u.readRequest.IsValid) :
    ∃ a, u.table.readAccess? = some a ∧ u.IsValid ∧ u.count.toNat ≤ u.table.readLimit ∧
      u.readRequest = ⟨a.toByte, u.rangeBytes⟩ :=
  readRequest_of_ne_invalid (Request.ne_invalid_of_isValid h)

theorem exchangeRequest_of_isValid {write : DataUnit} (h : (u.exchangeRequest write).IsValid) :
    u.table = .holdingRegisters ∧ u.IsValid ∧ u.count.toNat ≤ exchangeReadLimit ∧
      (u.exchangeRequest write).code = Access.readWriteMultipleRegisters.toByte := by
  unfold exchangeRequest at h ⊢
  split at h
  · rename_i hfits
    rw [if_pos hfits]
    exact ⟨hfits.1, hfits.2.2.1, hfits.2.2.2.2.1, rfl⟩
  · exact absurd h Request.not_isValid_invalid

/-! ## Writing -/

/-- The forms of a request that writes a unit: coils or holding registers, one element or many. -/
inductive WriteForm (u : DataUnit) : Request → Prop
  | coil (value : UInt16) (htable : u.table = .coils) (hcontent : u.content = [value]) :
    WriteForm u (singleWriteRequest .writeSingleCoil u.start (.coil (value != 0)))
  | register (value : UInt16) (htable : u.table = .holdingRegisters)
      (hcontent : u.content = [value]) :
    WriteForm u (singleWriteRequest .writeSingleRegister u.start (.register value))
  | coils (htable : u.table = .coils) (hmin : 2 ≤ u.content.length)
      (hmax : u.content.length ≤ coilWriteLimit) :
    WriteForm u (multipleWriteRequest .writeMultipleCoils u (Coils.pack u.content))
  | registers (htable : u.table = .holdingRegisters) (hmin : 2 ≤ u.content.length)
      (hmax : u.content.length ≤ registerWriteLimit) :
    WriteForm u (multipleWriteRequest .writeMultipleRegisters u (Registers.pack u.content))

theorem two_le_length_content (h : u.IsWritable) (hmany : ∀ value, u.content ≠ [value]) :
    2 ≤ u.content.length := by
  have hpos := count_pos_of_isValid h.1
  rw [← length_content h] at hpos
  match hcontent : u.content, hpos with
  | [value], _ => exact absurd hcontent (hmany value)
  | _ :: _ :: rest, _ =>
    simp only [List.length_cons]
    omega

theorem writeRequest_of_ne_invalid (h : u.writeRequest ≠ .invalid) :
    u.IsWritable ∧ u.WriteForm u.writeRequest := by
  unfold writeRequest at h ⊢
  split at h
  · rename_i hwritable
    refine ⟨hwritable, ?_⟩
    rw [if_pos hwritable]
    split at h
    · rename_i value htable hcontent
      exact .coil value htable hcontent
    · rename_i htable hmany
      have hmin := two_le_length_content hwritable hmany
      split at h
      · rename_i hmax
        rw [if_pos hmax]
        exact .coils htable hmin hmax
      · exact absurd rfl h
    · rename_i value htable hcontent
      exact .register value htable hcontent
    · rename_i htable hmany
      have hmin := two_le_length_content hwritable hmany
      split at h
      · rename_i hmax
        rw [if_pos hmax]
        exact .registers htable hmin hmax
      · exact absurd rfl h
    · exact absurd rfl h
  · exact absurd rfl h

theorem writeRequest_of_isValid (h : u.writeRequest.IsValid) :
    u.IsWritable ∧ u.WriteForm u.writeRequest :=
  writeRequest_of_ne_invalid (Request.ne_invalid_of_isValid h)

end DataUnit

end Modbus
