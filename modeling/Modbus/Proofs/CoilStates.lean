import Modbus.Proofs.Elements
import Modbus.Proofs.RoundTrips

/-!
# Coils that have been written

A coil is stored as `0` or `1`, but a unit takes any value for one, and whoever writes it has every
value except zero counted as "on". What the writer is told back depends on how many coils there
were. The acknowledgement of one coil brings its state along, and the state is stored as it should
be. The acknowledgement of a range brings none: the values that the writer had stored stay, whatever
they were.

`Session.written_coils_are_told_as_stored` says when the result holds coil states only, and that
they are the ones that were written if it does. `Session.seven_is_told_back` is a write whose result
holds a seven.
-/

namespace Modbus

namespace Coils

/-- The values are coil states as they are stored: zeros and ones. -/
def AreStates (values : List UInt16) : Prop := ∀ value ∈ values, value = 0 ∨ value = 1

instance (values : List UInt16) : Decidable (AreStates values) :=
  inferInstanceAs (Decidable (∀ value ∈ values, _))

variable {values : List UInt16}

theorem areStates_states (values : List UInt16) : AreStates (states values) := by
  intro state hstate
  obtain ⟨value, -, rfl⟩ := List.mem_map.mp hstate
  by_cases hzero : value = 0
  · exact .inl (if_pos hzero)
  · exact .inr (if_neg hzero)

theorem AreStates.eq_states (h : AreStates values) : values = states values := by
  refine (List.map_id values).symm.trans (List.map_congr_left fun value hvalue => ?_)
  rcases h value hvalue with rfl | rfl <;> rfl

end Coils

namespace DataUnit

variable {u : DataUnit}

/-- The values that the unit has when the coils it was written from have been acknowledged. -/
def toldCoils (u : DataUnit) : List UInt16 :=
  if u.count = 1 then Coils.states u.content else u.content

theorem areStates_toldCoils_iff :
    Coils.AreStates u.toldCoils ↔ u.count = 1 ∨ Coils.AreStates u.content := by
  unfold toldCoils
  by_cases hone : u.count = 1
  · rw [if_pos hone]
    exact iff_of_true (Coils.areStates_states u.content) (.inl hone)
  · rw [if_neg hone]
    simp [hone]

theorem toldCoils_eq_states (h : Coils.AreStates u.toldCoils) :
    u.toldCoils = Coils.states u.content := by
  unfold toldCoils at h ⊢
  by_cases hone : u.count = 1
  · rw [if_pos hone]
  · rw [if_neg hone] at h ⊢
    exact h.eq_states

/-- The acknowledgement of one coil tells its state, that of a range its address and size. -/
theorem WriteForm.exists_decode_coils {q : Request} (hform : u.WriteForm q) (h : u.IsWritable)
    (htable : u.table = .coils) :
    ∃ (a : Access) (content : Content),
      a.decode q.acknowledgement = .ok content ∧
        content.writeTo u = { u with values := u.toldCoils } := by
  have hfits : 4 ≤ maxPayload := by decide
  cases hform with
  | register value hregisters hcontent => cases htable.symm.trans hregisters
  | registers hregisters hmin hmax => cases htable.symm.trans hregisters
  | coil value hcoils hcontent =>
    have hcount := count_eq_one h hcontent
    refine ⟨.writeSingleCoil, .coil u.start (value != 0), ?_, ?_⟩
    · exact Access.decode_eq_ok_iff.mpr ⟨rfl, hfits, u.start, value != 0, rfl, rfl⟩
    · rw [toldCoils, if_pos hcount, hcontent, Coils.states, List.map_singleton,
        ← Coils.toUInt16_bne_zero, hcoils, hcount]
      rfl
  | coils hcoils hmin hmax =>
    have hmany : ¬ u.count = 1 := by
      intro hone
      rw [length_content h, hone] at hmin
      exact absurd hmin (by decide)
    refine ⟨.writeMultipleCoils, .coilRange u.start u.count, ?_, ?_⟩
    · exact Access.decode_eq_ok_iff.mpr ⟨rfl, hfits, u.start, u.count, rfl, rfl⟩
    · rw [Content.writeTo, ← hcoils, toldCoils, if_neg hmany]
      exact resized_of_isWritable h

end DataUnit

namespace Session

variable {s : Session} {slave : UInt8} {e : Element} {u : DataUnit}

/-- Whoever writes coils is told back, once the server has acknowledged them, a unit of coils with
one value for each. It holds zeros and ones only exactly if it was a single coil or if the values
that were written are zeros and ones already, and then they say which coils were written "on". -/
theorem written_coils_are_told_as_stored (hsent : (s.send (.write u) slave).value.1 = .ok e)
    (htable : u.table = .coils) :
    let written := u.values.take u.count.toNat
    ∃ reply result,
      (s.after [.send (.write u) slave,
        .complete s.queue.length e.request.acknowledgement]).queue = s.queue ++ [{ e with reply }] ∧
      reply.HasDelivered e.request.acknowledgement result ∧
      result.table = .coils ∧ result.values.length = u.count.toNat ∧
      (Coils.AreStates result.values ↔ u.count = 1 ∨ Coils.AreStates written) ∧
      (Coils.AreStates result.values → result.values = Coils.states written) ∧
      (¬ Coils.AreStates result.values → result.values = written) := by
  intro written
  obtain ⟨hsend, rfl⟩ := canSend_of_send hsent
  obtain ⟨hwritable, hform⟩ := DataUnit.writeRequest_of_isValid hsend.2.1
  obtain ⟨a, content, hdecode, hcontent⟩ := hform.exists_decode_coils hwritable htable
  have hdelivered := Element.hasDelivered_of_decode (e := Command.element (.write u) slave) rfl
    (fun h => h rfl) s.extension hdecode
  have hlength : u.toldCoils.length = u.count.toNat := by
    rw [← DataUnit.length_content hwritable, DataUnit.toldCoils]
    split
    · exact List.length_map _
    · rfl
  refine ⟨_, { u with values := u.toldCoils }, queue_after_send_complete hsend slave _, ?_, htable,
    hlength, DataUnit.areStates_toldCoils_iff, DataUnit.toldCoils_eq_states, fun hother => ?_⟩
  · rw [← hcontent]
    exact hdelivered
  · have hmany : ¬ u.count = 1 := fun hone =>
      hother (DataUnit.areStates_toldCoils_iff.mpr (.inl hone))
    exact if_neg hmany

/-- One coil is written with a seven, and told back as a one. -/
theorem one_coil_is_told_as_a_state :
    let u : DataUnit := .ofValues .coils 5 [7]
    let e : Element := Command.element (.write u) 1
    (({} : Session).send (.write u) 1).value.1 = .ok e ∧ u.table = .coils ∧
      ∃ reply result,
        (({} : Session).after [.send (.write u) 1, .complete 0 e.request.acknowledgement]).queue =
          [{ e with reply }] ∧
        reply.HasDelivered e.request.acknowledgement result ∧ result.values = [1] := by
  intro u e
  have hsent : (({} : Session).send (.write u) 1).value.1 = .ok e := rfl
  obtain ⟨reply, result, hqueue, hdelivered, -, -, hstates, hvalues, -⟩ :=
    written_coils_are_told_as_stored hsent rfl
  exact ⟨hsent, rfl, reply, result, hqueue, hdelivered, hvalues (hstates.mpr (.inl rfl))⟩

/-- Two coils are written "on" and "off" with a seven and a zero, and told back as such: the request
is as for a one and a zero, but the result of the write holds the seven. -/
theorem seven_is_told_back :
    let u : DataUnit := .ofValues .coils 0 [7, 0]
    let e : Element := Command.element (.write u) 1
    let acknowledgement : Response := ⟨15, [0, 0, 0, 2]⟩
    u.table = .coils ∧ u.writeRequest.IsValid ∧
      u.writeRequest = (DataUnit.ofCoils 0 [true, false]).writeRequest ∧
      e.request.acknowledgement = acknowledgement ∧
      (({} : Session).after [.send (.write u) 1, .complete 0 acknowledgement]).queue =
        [e.withOutcome
          { status := .finished
            response := some acknowledgement
            result := some { table := .coils, start := 0, count := 2, values := [7, 0] } }] ∧
      ¬ Coils.AreStates [7, 0] := by
  decide +kernel

end Session

end Modbus
