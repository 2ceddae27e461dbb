import Modbus.Dispatch

/-!
# The verdict on a response

`Response.process` takes one of two ways. The response to a data access gets the verdict of the
decoder of that access, and every other response the verdict of the extension; the lemmas here say
all that is needed of `Response.process` elsewhere.
-/

namespace Modbus

variable {r : Response} {a : Access}

/-- Decoding into a unit leaves a unit, and without one there is none. -/
theorem Access.isSome_decodeInto_snd (a : Access) (r : Response) (unit : Option DataUnit) :
    (a.decodeInto r unit).2.isSome = unit.isSome := by
  cases h : a.decode r <;> simp [decodeInto, h]

namespace Response

theorem value_process_of_access (h : Access.ofByte? r.code = some a) (extension : Option Extension)
    (unit : Option DataUnit) :
    (r.process extension unit).value =
      { accepted := (a.decodeInto r unit).1.isOk, unit := (a.decodeInto r unit).2 } := by
  simp only [process, h]
  split <;> rename_i hdecode <;> simp [hdecode, Except.isOk, Except.toBool]

theorem process_of_not_access (h : Access.ofByte? r.code = none) (extension : Option Extension)
    (unit : Option DataUnit) :
    r.process extension unit =
      match extension with
      | some e => pure
        { accepted := (e.decodeInto r unit).1, unit := (e.decodeInto r unit).2, calls := 1 }
      | none => pure { accepted := false, unit } := by
  cases extension <;> simp only [process, h]

theorem value_process_of_not_access (h : Access.ofByte? r.code = none)
    (extension : Option Extension) (unit : Option DataUnit) :
    (r.process extension unit).value =
      match extension with
      | some e =>
        { accepted := (e.decodeInto r unit).1, unit := (e.decodeInto r unit).2, calls := 1 }
      | none => { accepted := false, unit } := by
  rw [process_of_not_access h]
  cases extension <;> rfl

/-- A response that is decoded into a unit leaves a unit. -/
theorem isSome_unit_process (r : Response) (extension : Option Extension) (u : DataUnit) :
    (r.process extension (some u)).value.unit.isSome := by
  cases h : Access.ofByte? r.code with
  | some a =>
    rw [value_process_of_access h]
    exact a.isSome_decodeInto_snd r (some u)
  | none =>
    rw [value_process_of_not_access h]
    cases extension <;> rfl

end Response

end Modbus
