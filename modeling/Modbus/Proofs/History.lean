import Modbus.Proofs.Steps

/-!
# What a session remembers

A session remembers two things of its past: why the last command that was not sent was not sent, and
the response timeout that was set last. `Session.remembers_the_last_of_each` says so of whole runs,
whatever else happens in them, and that setting a timeout tells whether it was another before.

An extension may keep a state of its own, and answer differently each time it is called. A step
calls it at most once, so all such runs are lists of turns, each of them a step and what the
extension is at that time. `Session.play` does one turn after the other and `Session.history` keeps
a record of each. With one and the same extension throughout they are `Session.run`
(`Session.value_run_eq`).
-/

namespace Modbus.Session

/-! ## Turns -/

/-- A step, and what the extension is when it is done. -/
structure Turn where
  step : Step
  extension : Option Extension

/-- A step that has been done, and the session that it was done to. -/
structure Moment where
  before : Session
  step : Step

namespace Moment

/-- What the step answered. -/
def answer (m : Moment) : Option Answer := (m.before.step m.step).value.1

/-- The session after the step. -/
def after (m : Moment) : Session := (m.before.step m.step).value.2

theorem after_eq_next (m : Moment) : m.after = m.before.next m.step :=
  m.before.value_step_snd m.step

end Moment

/-- The session with what the extension is from now on. -/
def withExtension (s : Session) (extension : Option Extension) : Session := { s with extension }

/-- The turn of a session. -/
def moment (s : Session) (turn : Turn) : Moment where
  before := s.withExtension turn.extension
  step := turn.step

/-- All turns of a session, one after the other. -/
def history (s : Session) : List Turn → List Moment
  | [] => []
  | turn :: turns => s.moment turn :: (s.moment turn).after.history turns

/-- The session after all of its turns. -/
def play (s : Session) : List Turn → Session
  | [] => s
  | turn :: turns => (s.moment turn).after.play turns

/-- A run is a history in which the extension always is the same. -/
theorem value_run_eq (s : Session) (steps : List Step) :
    let turns := steps.map fun st => (⟨st, s.extension⟩ : Turn)
    (s.run steps).value = ((s.history turns).map Moment.answer, s.play turns) := by
  induction steps generalizing s with
  | nil => rfl
  | cons st steps ih =>
    have hrest := ih (s.step st).value.2
    rw [extension_step] at hrest
    have hrun : (s.run (st :: steps)).value =
        ((s.step st).value.1 :: ((s.step st).value.2.run steps).value.1,
          ((s.step st).value.2.run steps).value.2) := rfl
    rw [hrun, hrest]
    rfl

/-- What only changes by being set is, after all turns, what it was last set to. -/
theorem play_eq_getLastD {α : Type} {field : Session → α} {set? : Moment → Option α}
    (hextension : ∀ s extension, field (withExtension s extension) = field s)
    (hset : ∀ m : Moment, field m.after = (set? m).getD (field m.before))
    (s : Session) (turns : List Turn) :
    field (s.play turns) = ((s.history turns).filterMap set?).getLastD (field s) := by
  induction turns generalizing s with
  | nil => rfl
  | cons turn turns ih =>
    have hfirst : field (s.moment turn).after = (set? (s.moment turn)).getD (field s) := by
      rw [hset]
      exact congrArg (set? (s.moment turn)).getD (hextension s turn.extension)
    -- what the first turn sets is what the other turns begin with
    rw [play, history, List.filterMap_cons, ih, hfirst]
    cases set? (s.moment turn) with
    | none => rfl
    | some a => exact List.getLastD_cons.symm

/-! ## Failures and timeouts -/

namespace Moment

/-- The failure that the caller of a command gets, if the step is one that was not sent. -/
def failure? (m : Moment) : Option Failure :=
  match m.step, m.answer with
  | .send _ _, some (.sent (.error reason)) => some reason.failure
  | _, _ => none

/-- The response timeout that the step sets, if it sets one. -/
def timeout? (m : Moment) : Option Int := m.step.timeout?

theorem failure?_eq (m : Moment) :
    m.failure? = (m.before.obstacleTo? m.step).map SendError.failure := by
  obtain ⟨s, st⟩ := m
  cases st with
  | send c slave =>
    have hanswer : (Moment.mk s (.send c slave)).answer = some (.sent (s.send c slave).value.1) :=
      rfl
    rw [failure?, hanswer, value_send, obstacleTo?]
    cases s.obstacle? c.request slave <;> rfl
  | enqueue request slave unit kind | complete index r | process r unit
  | wait index patience schedule | act index a | inspect index | setTimeout ms
  | changeTransport change => rfl

theorem failure_after (m : Moment) : m.after.failure = m.failure?.getD m.before.failure := by
  rw [failure?_eq, after_eq_next, failure, next]
  cases m.before.obstacleTo? m.step <;> rfl

theorem timeout_after (m : Moment) : m.after.timeout = m.timeout?.getD m.before.timeout := by
  rw [after_eq_next]
  rfl

theorem answer_setTimeout {m : Moment} {ms : Int} (h : m.step = .setTimeout ms) :
    m.answer = some (.timeoutSet (decide (ms ≠ m.before.timeout))) := by
  rw [answer, h, Session.step, Session.setTimeout]
  by_cases hsame : m.before.timeout = ms
  · simp [hsame]
  · simp [hsame, Ne.symm hsame]

end Moment

/-- A session reports the failure of the last command that was not sent, or that there was none, and
the response timeout that was set last, or the one it began with. No other step has a say in
either. Setting a timeout tells whether it was another before. -/
theorem remembers_the_last_of_each (transport : Transport) (timeout : Int) (turns : List Turn) :
    let s : Session := { transport, timeout }
    let t := s.play turns
    t.failure = ((s.history turns).filterMap Moment.failure?).getLastD ⟨.noError, ""⟩ ∧
    t.timeout = ((s.history turns).filterMap Moment.timeout?).getLastD timeout ∧
    (∀ m ∈ s.history turns,
      (m.failure? = none → m.after.failure = m.before.failure) ∧
      ∀ ms, m.step = .setTimeout ms →
        m.answer = some (.timeoutSet (decide (ms ≠ m.before.timeout)))) := by
  intro s t
  refine ⟨?_, ?_, fun m _ => ⟨fun hnone => ?_, fun ms hms => m.answer_setTimeout hms⟩⟩
  · exact play_eq_getLastD (fun _ _ => rfl) Moment.failure_after s turns
  · exact play_eq_getLastD (fun _ _ => rfl) Moment.timeout_after s turns
  · rw [m.failure_after, hnone, Option.getD_none]

/-- A command that is sent does not make a session forget the one before that was not, nor does a
request that fails with an exception. -/
theorem remembers_what_was_not_sent :
    let steps : List Step :=
      [.send (.raw ⟨0, []⟩) 1, .setTimeout 500, .send (.read (.zeros .coils 0 8)) 1,
        .complete 0 ⟨0x81, [2]⟩, .setTimeout 500]
    let turns := steps.map fun st => (⟨st, none⟩ : Turn)
    let t := ({} : Session).after steps
    (({} : Session).history turns).filterMap Moment.failure? =
        [⟨.write, "Invalid Modbus request."⟩] ∧
      (({} : Session).history turns).filterMap Moment.timeout? = [500, 500] ∧
      t.failure = ⟨.write, "Invalid Modbus request."⟩ ∧ t.timeout = 500 := by
  intro steps turns t
  obtain ⟨hfailure, htimeout, -⟩ := remembers_the_last_of_each {} 200 turns
  have ht : t = ({} : Session).play turns := congrArg Prod.snd (value_run_eq {} steps)
  exact ⟨rfl, rfl, (congrArg failure ht).trans hfailure, (congrArg timeout ht).trans htimeout⟩

end Modbus.Session
