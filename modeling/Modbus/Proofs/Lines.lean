import Modbus.Log

/-!
# Telling log lines apart

A line of the log opens with fixed words, `Event.opening`, which tell what kind of event it is for:
no opening is the beginning of another (`Event.eq_of_opensWith`). So the lines of one kind can be
picked out of a log by their text alone, and `Event.filter_lines` says what is found: the lines of
the events of that kind, in order, and nothing else.
-/

namespace Modbus

/-- A line has `start` at its beginning. -/
def OpensWith (start line : String) : Prop := start.toList <+: line.toList

instance (start line : String) : Decidable (OpensWith start line) :=
  inferInstanceAs (Decidable (_ <+: _))

namespace OpensWith

variable {start line : String}

theorem self_append (start rest : String) : OpensWith start (start ++ rest) := by
  rw [OpensWith, String.toList_append]
  exact List.prefix_append _ _

theorem append (h : OpensWith start line) (rest : String) : OpensWith start (line ++ rest) := by
  rw [OpensWith, String.toList_append]
  exact h.trans (List.prefix_append _ _)

theorem append_left (h : OpensWith start line) (first : String) :
    OpensWith (first ++ start) (first ++ line) := by
  rw [OpensWith, String.toList_append, String.toList_append]
  exact (List.prefix_append_right_inj _).mpr h

end OpensWith

namespace Event

/-! ## Openings -/

/-- The words that the line of an event opens with. -/
def opening : Event → String
  | sendFailed _ => "WARN: "
  | lateUpdate _ => "DEBUG: Ignoring update of already completed reply from slave "
  | exceptionReceived _ _ => "DEBUG: Modbus Exception Response"
  | decodingFailed _ _ => "DEBUG: Invalid response for function code "
  | timedOut _ _ => "DEBUG: Reply from slave "
  | timeoutChanged _ _ => "DEBUG: Response timeout changed from "

/-- The openings of all lines. -/
def openings : List String :=
  ["WARN: ", "DEBUG: Ignoring update of already completed reply from slave ",
    "DEBUG: Modbus Exception Response", "DEBUG: Invalid response for function code ",
    "DEBUG: Reply from slave ", "DEBUG: Response timeout changed from "]

theorem opening_mem (e : Event) : e.opening ∈ openings := by
  cases e <;> simp [opening, openings]

theorem eq_of_opensWith : ∀ a ∈ openings, ∀ b ∈ openings, OpensWith a b → a = b := by
  decide

/-- The opening of a line, put together from the level and the first words of the text. -/
theorem opensWith_line {e : Event} {start : String} (words : String)
    (hstart : e.level.name ++ ": " ++ words = start) (htext : OpensWith words e.text) :
    OpensWith start e.line := by
  rw [← hstart]
  exact htext.append_left _

theorem opensWith_opening (e : Event) : OpensWith e.opening e.line := by
  cases e with
  | sendFailed reason => exact .self_append _ _
  | lateUpdate slave =>
    have hwords := OpensWith.self_append "Ignoring update of already completed reply from slave "
    exact opensWith_line _ rfl (hwords _)
  | exceptionReceived code reason =>
    have hmessage : OpensWith "Modbus Exception Response" (exceptionMessage reason) := by
      cases reason with
      | none => decide
      | some reason =>
        have hwords : OpensWith "Modbus Exception Response" "Modbus Exception Response: " := by
          decide
        exact (hwords.append _).append _
    exact opensWith_line _ rfl (((hmessage.append _).append _).append _)
  | decodingFailed code reason =>
    have hwords := OpensWith.self_append "Invalid response for function code "
    exact opensWith_line _ rfl (((hwords _).append _).append _)
  | timedOut slave ms =>
    have hwords := OpensWith.self_append "Reply from slave "
    exact opensWith_line _ rfl (((hwords _).append _).append _)
  | timeoutChanged before after =>
    have hwords := OpensWith.self_append "Response timeout changed from "
    exact opensWith_line _ rfl ((((hwords _).append _).append _).append _)

/-- A line opens with the words of its own event only. -/
theorem opensWith_line_iff {start : String} (h : start ∈ openings) (e : Event) :
    OpensWith start e.line ↔ e.opening = start := by
  constructor
  · intro hstart
    rcases List.prefix_or_prefix_of_prefix hstart e.opensWith_opening with hle | hle
    · exact (eq_of_opensWith _ h _ e.opening_mem hle).symm
    · exact eq_of_opensWith _ e.opening_mem _ h hle
  · rintro rfl
    exact e.opensWith_opening

/-! ## Kinds of events -/

/-- Why a request has not been sent, if the event says so. -/
def warning? : Event → Option SendError
  | sendFailed reason => some reason
  | lateUpdate _ | exceptionReceived _ _ | decodingFailed _ _ | timedOut _ _
  | timeoutChanged _ _ => none

/-- The server whose reply was complete already when it was told something, if the event says so. -/
def late? : Event → Option UInt8
  | lateUpdate slave => some slave
  | sendFailed _ | exceptionReceived _ _ | decodingFailed _ _ | timedOut _ _
  | timeoutChanged _ _ => none

/-- The function code of a response that could not be decoded, and why, if the event says so. -/
def rejection? : Event → Option (UInt8 × DecodeError)
  | decodingFailed code reason => some (code, reason)
  | sendFailed _ | lateUpdate _ | exceptionReceived _ _ | timedOut _ _ | timeoutChanged _ _ => none

/-- The line about a request that has not been sent. -/
def warningLine (reason : SendError) : String :=
  match reason with
  | .notConnected => "WARN: Device is not connected"
  | .invalidRequest => "WARN: Refuse to send invalid request."
  | .refused slave => s!"WARN: Request for slave {slave} was refused by the queue"

/-- The line about a complete reply that has been told something. -/
def lateLine (slave : UInt8) : String :=
  s!"DEBUG: Ignoring update of already completed reply from slave {slave}"

/-- The line about a response that could not be decoded. -/
def rejectionLine (rejection : UInt8 × DecodeError) : String :=
  "DEBUG: Invalid response for function code " ++ Hex.byte rejection.1 ++ ": " ++
    rejection.2.message

/-- Picking out the lines of one kind by their opening is picking out the events of that kind. -/
theorem filter_lines {α : Type} {start : String} {pick : Event → Option α} {write : α → String}
    (hstart : start ∈ openings)
    (hpick : ∀ e, (pick e).map write = if e.opening = start then some e.line else none)
    (events : List Event) :
    (events.map line).filter (fun line => OpensWith start line) =
      (events.filterMap pick).map write := by
  induction events with
  | nil => rfl
  | cons e events ih =>
    have hopen := opensWith_line_iff hstart e
    have he := hpick e
    rw [List.map_cons, List.filterMap_cons, List.filter_cons, ih]
    by_cases h : e.opening = start
    · rw [if_pos h] at he
      obtain ⟨a, ha, hline⟩ := Option.map_eq_some_iff.mp he
      simp [hopen, h, ha, hline]
    · rw [if_neg h] at he
      simp [hopen, h, Option.map_eq_none_iff.mp he]

/-- What is added behind the words of a line can be added to the line. -/
theorem append_words {front words start : String} (h : front ++ words = start) (rest : String) :
    front ++ (words ++ rest) = start ++ rest := by
  rw [← h, String.append_assoc]

theorem line_sendFailed (reason : SendError) : (sendFailed reason).line = warningLine reason := by
  cases reason with
  | notConnected | invalidRequest => rfl
  | refused slave =>
    have hwords : Level.warn.name ++ ": " ++ "Request for slave " =
        "WARN: Request for slave " := rfl
    exact append_words (append_words hwords (toString slave)) " was refused by the queue"

theorem line_lateUpdate (slave : UInt8) : (lateUpdate slave).line = lateLine slave := by
  have hwords : Level.debug.name ++ ": " ++
      "Ignoring update of already completed reply from slave " =
        "DEBUG: Ignoring update of already completed reply from slave " := rfl
  exact append_words hwords (toString slave)

theorem line_decodingFailed (code : UInt8) (reason : DecodeError) :
    (decodingFailed code reason).line = rejectionLine (code, reason) := by
  have hwords : Level.debug.name ++ ": " ++ "Invalid response for function code " =
      "DEBUG: Invalid response for function code " := rfl
  exact append_words (append_words (append_words hwords (Hex.byte code)) ": ") reason.message

theorem filter_warnings (events : List Event) :
    (events.map line).filter (fun line => OpensWith "WARN: " line) =
      (events.filterMap warning?).map warningLine := by
  refine filter_lines (by simp [openings]) (fun e => ?_) events
  cases e with
  | sendFailed reason => exact congrArg some (line_sendFailed reason).symm
  | _ => rfl

theorem filter_lateUpdates (events : List Event) :
    (events.map line).filter (fun line =>
        OpensWith "DEBUG: Ignoring update of already completed reply from slave " line) =
      (events.filterMap late?).map lateLine := by
  refine filter_lines (by simp [openings]) (fun e => ?_) events
  cases e with
  | lateUpdate slave => exact congrArg some (line_lateUpdate slave).symm
  | _ => rfl

theorem filter_rejections (events : List Event) :
    (events.map line).filter (fun line =>
        OpensWith "DEBUG: Invalid response for function code " line) =
      (events.filterMap rejection?).map rejectionLine := by
  refine filter_lines (by simp [openings]) (fun e => ?_) events
  cases e with
  | decodingFailed code reason => exact congrArg some (line_decodingFailed code reason).symm
  | _ => rfl

end Event

end Modbus
