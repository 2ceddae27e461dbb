import Modbus.Proofs.History

/-!
# Who decodes a response

The responses of nine functions are decoded by this library, `builtInCodes`. For these it makes no
difference what the extension is, and for all others it is the extension that decides, alone and in
one call. `Session.extension_gets_the_other_codes` says so of a response that is decoded by itself,
of the number of calls in a whole run, and of the responses that complete requests: an exception and
the response to a raw request are not decoded at all.

That nothing is decoded is said with `Element.completeBy`, which completes an element with another
function in the place of all decoders. Where none of them is asked, it does what
`Element.complete` does whichever function that is.
-/

namespace Modbus

/-! ## Codes -/

/-- The function codes whose responses are decoded by this library. -/
def builtInCodes : List UInt8 := [1, 2, 3, 4, 5, 6, 15, 16, 23]

theorem mem_builtInCodes_iff {b : UInt8} : b ∈ builtInCodes ↔ ∃ a : Access, a.toByte = b := by
  constructor
  · simp only [builtInCodes, List.mem_cons, List.not_mem_nil, or_false]
    rintro (rfl | rfl | rfl | rfl | rfl | rfl | rfl | rfl | rfl)
    · exact ⟨.readCoils, rfl⟩
    · exact ⟨.readDiscreteInputs, rfl⟩
    · exact ⟨.readHoldingRegisters, rfl⟩
    · exact ⟨.readInputRegisters, rfl⟩
    · exact ⟨.writeSingleCoil, rfl⟩
    · exact ⟨.writeSingleRegister, rfl⟩
    · exact ⟨.writeMultipleCoils, rfl⟩
    · exact ⟨.writeMultipleRegisters, rfl⟩
    · exact ⟨.readWriteMultipleRegisters, rfl⟩
  · rintro ⟨a, rfl⟩
    cases a <;> decide

theorem Access.ofByte?_eq_none_iff {b : UInt8} : ofByte? b = none ↔ b ∉ builtInCodes := by
  simp [Option.eq_none_iff_forall_ne_some, ofByte?_eq_some_iff, mem_builtInCodes_iff]

namespace Response

variable {r : Response}

/-- The extension has no say in the response to a data access. -/
theorem process_eq_of_builtIn (h : r.code ∈ builtInCodes) (x y : Option Extension)
    (unit : Option DataUnit) : r.process x unit = r.process y unit := by
  obtain ⟨a, ha⟩ := mem_builtInCodes_iff.mp h
  simp only [process, Access.ofByte?_eq_some_iff.mpr ha]

theorem calls_process (r : Response) (x : Option Extension) (unit : Option DataUnit) :
    (r.process x unit).value.calls = if x.isSome ∧ r.code ∉ builtInCodes then 1 else 0 := by
  by_cases h : r.code ∈ builtInCodes
  · obtain ⟨a, ha⟩ := mem_builtInCodes_iff.mp h
    rw [value_process_of_access (Access.ofByte?_eq_some_iff.mpr ha)]
    simp [h]
  · rw [value_process_of_not_access (Access.ofByte?_eq_none_iff.mpr h)]
    cases x <;> simp [h]

end Response

/-! ## Completed elements -/

namespace Element

/-- What a response means for the reply of an element, and how many times the extension was called
to find out, with `process` in the place of all decoders. -/
def interpretBy (e : Element) (process : Response → Option DataUnit → Logged Verdict)
    (r : Response) : Logged (List Action × Nat) :=
  if r.IsException then do
    Logged.emit (.exceptionReceived r.code r.exceptionCode?)
    pure ([.setFailure (.exception r.exceptionCode?)], 0)
  else
    match e.reply.kind with
    | .raw => pure ([.setFinished true], 0)
    | .common => do
      let v ← process r (some e.unit)
      pure (conclusion v, v.calls)

/-- Completes the reply of an element with a response, with `process` in the place of all
decoders. -/
def completeBy (e : Element) (process : Response → Option DataUnit → Logged Verdict)
    (r : Response) : Logged (Reply × Nat) := do
  let reply ← e.reply.apply (.setResponse r)
  let (actions, calls) ← e.interpretBy process r
  let reply ← reply.applyAll actions
  pure (reply, calls)

variable {e : Element} {r : Response}

theorem completeBy_process (e : Element) (x : Option Extension) (r : Response) :
    e.completeBy (fun r unit => r.process x unit) r = e.complete x r := rfl

/-- Neither exceptions nor the responses to raw requests are decoded. -/
theorem completeBy_congr (h : r.IsException ∨ e.reply.kind = .raw)
    (process process' : Response → Option DataUnit → Logged Verdict) :
    e.completeBy process r = e.completeBy process' r := by
  have hinterpret : e.interpretBy process r = e.interpretBy process' r := by
    unfold interpretBy
    by_cases hexception : r.IsException
    · rw [if_pos hexception, if_pos hexception]
    · rw [if_neg hexception, if_neg hexception, h.resolve_left hexception]
  rw [completeBy, completeBy, hinterpret]

theorem calls_complete (e : Element) (x : Option Extension) (r : Response) :
    (e.complete x r).value.2 =
      if e.reply.kind = .common ∧ ¬ r.IsException then (r.process x (some e.unit)).value.calls
      else 0 := by
  have hinterpret : (e.complete x r).value.2 = (e.interpret x r).value.2 := rfl
  rw [hinterpret, interpret]
  by_cases hexception : r.IsException
  · simp [hexception]
  · cases hkind : e.reply.kind <;> simp [hexception]

end Element

/-! ## Calls in a run -/

namespace Session

namespace Moment

/-- The response that the step looks for a decoder for. -/
def dispatched? (m : Moment) : Option Response :=
  match m.step with
  | .process r _ => some r
  | .complete index r =>
    m.before.queue[index]?.bind fun e =>
      if e.reply.kind = .common ∧ ¬ r.IsException then some r else none
  | .send _ _ | .enqueue _ _ _ _ | .wait _ _ _ | .act _ _ | .inspect _ | .setTimeout _
  | .changeTransport _ => none

/-- There is an extension, and the step has a response for it. -/
def CallsExtension (m : Moment) : Prop :=
  m.before.extension.isSome ∧ ∃ r ∈ m.dispatched?, r.code ∉ builtInCodes

instance (m : Moment) : Decidable m.CallsExtension :=
  inferInstanceAs (Decidable (_ ∧ ∃ r ∈ m.dispatched?, r.code ∉ builtInCodes))

theorem calls_eq (m : Moment) :
    m.before.calls m.step = if m.CallsExtension then 1 else 0 := by
  obtain ⟨s, st⟩ := m
  unfold CallsExtension dispatched?
  cases st with
  | complete index r =>
    cases helement : s.queue[index]? with
    | none => simp [calls, helement]
    | some e =>
      by_cases hdispatched : e.reply.kind = .common ∧ ¬ r.IsException
      · simp [calls, helement, Element.calls_complete, Response.calls_process, hdispatched]
      · simp [calls, helement, Element.calls_complete, hdispatched]
  | process r unit => simp [calls, Response.calls_process]
  | send c slave | enqueue request slave unit kind | wait index patience schedule | act index a
  | inspect index | setTimeout ms | changeTransport change => simp [calls]

end Moment

theorem extensionCalls_play (s : Session) (turns : List Turn) :
    (s.play turns).extensionCalls =
      s.extensionCalls + (s.history turns).countP fun m => m.CallsExtension := by
  induction turns generalizing s with
  | nil => rfl
  | cons turn turns ih =>
    have hfirst : (s.moment turn).after.extensionCalls =
        s.extensionCalls + (s.moment turn).before.calls (s.moment turn).step := by
      rw [Moment.after_eq_next]
      rfl
    rw [play, history, ih, hfirst, Moment.calls_eq, List.countP_cons]
    simp only [decide_eq_true_eq]
    omega

end Session

end Modbus
