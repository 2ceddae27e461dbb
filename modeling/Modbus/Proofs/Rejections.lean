import Modbus.Proofs.Answers
import Modbus.Proofs.Routing

/-!
# Responses that cannot be decoded

Decoding a response is all or nothing. Whichever check fails, the unit that the response was to be
decoded into stays as it is: `Access.decodeInto_eq_error_iff` ties this to the responses that are no
answer, and `Response.unit_process_of_rejected` to the verdict.

An extension may do to its unit what it likes before it rejects a response. When a request is
completed that unit is a copy, so nothing is seen of it: the element keeps its own unit, and its
reply gets no result (`Session.rejected_step`), however many such responses come
(`Session.rejected_run`).
-/

namespace Modbus

namespace Access

/-- What is no answer fails, and leaves the unit as it was. -/
theorem decodeInto_eq_error_iff {a : Access} {r : Response} {unit : Option DataUnit} :
    (∃ reason, a.decodeInto r unit = (.error reason, unit)) ↔ ¬ a.IsAnswer r := by
  have hok : (a.decodeInto r unit).1 = .ok () ↔ a.IsAnswer r := decodeInto_fst_eq_ok_iff_isAnswer
  rw [← hok]
  cases h : a.decode r <;> simp [decodeInto, h]

theorem decodeInto_snd_of_ne_ok {a : Access} {r : Response} {unit : Option DataUnit}
    (h : (a.decodeInto r unit).1 ≠ .ok ()) : (a.decodeInto r unit).2 = unit := by
  have hanswer : ¬ a.IsAnswer r := mt decodeInto_fst_eq_ok_iff_isAnswer.mpr h
  obtain ⟨reason, hdecode⟩ := decodeInto_eq_error_iff.mpr hanswer
  rw [hdecode]

end Access

namespace Response

variable {r : Response}

/-- An exception answers no data access. -/
theorem IsException.not_isAnswer (h : r.IsException) (a : Access) : ¬ a.IsAnswer r := by
  intro hanswer
  exact not_isException_of_rawCode hanswer.1 h

/-- A response to a data access that is rejected leaves the unit as it was. -/
theorem unit_process_of_rejected (hcode : r.code ∈ builtInCodes) {x : Option Extension}
    {unit : Option DataUnit} (h : (r.process x unit).value.accepted = false) :
    (r.process x unit).value.unit = unit := by
  obtain ⟨a, ha⟩ := mem_builtInCodes_iff.mp hcode
  have hfailed : (a.decodeInto r unit).1 ≠ .ok () :=
    mt (accepted_process_iff ha.symm x unit).mpr (ne_true_of_eq_false h)
  rw [value_process_of_access (Access.ofByte?_eq_some_iff.mpr ha)]
  exact Access.decodeInto_snd_of_ne_ok hfailed

theorem IsException.rejected (h : r.IsException) (hcode : r.code ∈ builtInCodes)
    (x : Option Extension) (unit : Option DataUnit) :
    (r.process x unit).value.accepted = false := by
  obtain ⟨a, ha⟩ := mem_builtInCodes_iff.mp hcode
  rw [← Bool.not_eq_true, accepted_process_iff ha.symm x unit,
    Access.decodeInto_fst_eq_ok_iff_isAnswer]
  exact h.not_isAnswer a

end Response

namespace Element

/-- The response is rejected when it is decoded into a copy of the unit of the element. -/
def Rejects (e : Element) (x : Option Extension) (r : Response) : Prop :=
  (r.process x (some e.unit)).value.accepted = false

variable {e : Element} {x : Option Extension} {r : Response}

theorem Rejects.result_complete (h : e.Rejects x r) :
    (e.complete x r).value.1.outcome.result = e.reply.outcome.result := by
  rw [value_complete_fst]
  by_cases hcomplete : e.reply.IsComplete
  · rw [Reply.applyAll_of_isComplete hcomplete]
  · rw [applyAll_completion x r hcomplete, outcomeOf]
    split
    · rfl
    · split
      · rfl
      · rw [if_neg (ne_true_of_eq_false h)]

end Element

namespace Session

variable {s : Session} {i : Nat} {e : Element}

/-- A rejected response leaves the unit of the element and the result of its reply as they were. -/
theorem rejected_step {r : Response} (he : s.queue[i]? = some e) (h : e.Rejects s.extension r) :
    ∃ e', (s.step (.complete i r)).value.2.queue[i]? = some e' ∧ e'.unit = e.unit ∧
      e'.reply.outcome.result = e.reply.outcome.result :=
  ⟨_, getElem?_queue_complete he r, rfl, h.result_complete⟩

/-- The turns in which responses complete the element at `i`, each with its extension. -/
def completions (i : Nat) (arrivals : List (Option Extension × Response)) : List Turn :=
  arrivals.map fun (x, r) => ⟨.complete i r, x⟩

theorem rejected_run {arrivals : List (Option Extension × Response)} (he : s.queue[i]? = some e)
    (h : ∀ x r, (x, r) ∈ arrivals → e.Rejects x r) :
    ∃ e', (s.play (completions i arrivals)).queue[i]? = some e' ∧ e'.unit = e.unit ∧
      e'.reply.outcome.result = e.reply.outcome.result := by
  induction arrivals generalizing s e with
  | nil => exact ⟨e, he, rfl, rfl⟩
  | cons arrival arrivals ih =>
    obtain ⟨x, r⟩ := arrival
    have hqueue : (s.withExtension x).queue[i]? = some e := he
    obtain ⟨e₁, he₁, hunit₁, hresult₁⟩ := rejected_step hqueue (h x r List.mem_cons_self)
    have hrest : ∀ x' r', (x', r') ∈ arrivals → e₁.Rejects x' r' := by
      intro x' r' hmem
      rw [Element.Rejects, hunit₁]
      exact h x' r' (List.mem_cons_of_mem _ hmem)
    obtain ⟨e₂, he₂, hunit₂, hresult₂⟩ := ih he₁ hrest
    exact ⟨e₂, he₂, hunit₂.trans hunit₁, hresult₂.trans hresult₁⟩

end Session

/-- Decoding that fails leaves no trace. A decoder that returns an error has left the unit as it
was, and it returns one for every response that is no answer. A response with a built-in code that
is rejected, as every exception with such a code is, leaves the unit as it was. In completing a
request neither the decoders nor an extension, whatever it writes before it rejects a response,
touch the unit of the element, and the reply gets no result, however often this happens. -/
theorem failed_decoding_leaves_no_trace :
    (∀ (a : Access) (r : Response) (unit : Option DataUnit),
      (∀ reason, (a.decodeInto r unit).1 = .error reason → (a.decodeInto r unit).2 = unit) ∧
      (¬ a.IsAnswer r → ∃ reason, a.decodeInto r unit = (.error reason, unit))) ∧
    (∀ (r : Response) (x : Option Extension) (unit : Option DataUnit), r.code ∈ builtInCodes →
      ((r.process x unit).value.accepted = false → (r.process x unit).value.unit = unit) ∧
      (r.IsException → (r.process x unit).value.accepted = false)) ∧
    (∀ (s : Session) (i : Nat) (e : Element) (arrivals : List (Option Extension × Response)),
      s.queue[i]? = some e →
      (∀ x r, (x, r) ∈ arrivals → (r.process x (some e.unit)).value.accepted = false) →
      ∃ e', (s.play (Session.completions i arrivals)).queue[i]? = some e' ∧ e'.unit = e.unit ∧
        e'.reply.outcome.result = e.reply.outcome.result) := by
  refine ⟨fun a r unit => ⟨fun reason h => ?_, Access.decodeInto_eq_error_iff.mpr⟩,
    fun r x unit hcode => ⟨Response.unit_process_of_rejected hcode,
      fun hexception => hexception.rejected hcode x unit⟩,
    fun s i e arrivals he hrejects => Session.rejected_run he hrejects⟩
  apply Access.decodeInto_snd_of_ne_ok
  rw [h]
  exact nofun

/-- Coils are read. An extension writes to its unit and rejects a response, and then the states of
the coils come with a wrong byte count. -/
theorem scribbling_extension_leaves_no_trace :
    let unit : DataUnit := .zeros .coils 5 8
    let scribble : Extension :=
      { accepts := fun _ => false
        decode := fun r u => (false, { u with start := r.code.toUInt16 }) }
    let short : Response := ⟨1, [2, 0xFF]⟩
    let foreign : Response := ⟨0x41, [9]⟩
    let s := (({} : Session).step (.send (.read unit) 1)).value.2
    (∃ reason, Access.readCoils.decodeInto short (some unit) = (.error reason, some unit)) ∧
      (Response.process ⟨0x81, [2]⟩ none (some unit)).value.unit = some unit ∧
      (foreign.process (some scribble) (some unit)).value.unit = some { unit with start := 0x41 } ∧
      ∃ e', (s.play (Session.completions 0 [(some scribble, foreign), (none, short)])).queue[0]? =
          some e' ∧
        e'.unit = unit ∧ e'.reply.outcome.result = none := by
  intro unit scribble short foreign s
  obtain ⟨hdecoders, hverdict, hcompleted⟩ := failed_decoding_leaves_no_trace
  have hanswer : ¬ Access.readCoils.IsAnswer short := by
    rintro ⟨-, -, count, rest, ⟨⟩, hlength, -⟩
    exact absurd hlength (by decide)
  have hexception := hverdict ⟨0x81, [2]⟩ none (some unit) (by decide)
  have hrejected : ∀ x r, (x, r) ∈ [(some scribble, foreign), (none, short)] →
      (r.process x (some unit)).value.accepted = false := by
    intro x r hmem
    have hcases : (x = some scribble ∧ r = foreign) ∨ (x = none ∧ r = short) := by
      simpa using hmem
    obtain ⟨rfl, rfl⟩ | ⟨rfl, rfl⟩ := hcases
    · rfl
    · rfl
  exact ⟨(hdecoders _ _ _).2 hanswer, hexception.1 (hexception.2 (by decide)), rfl,
    hcompleted s 0 _ _ rfl hrejected⟩

end Modbus
