import Octet.Proofs.Clock.Join
import Octet.Proofs.Session.TraceHistory

/-!
# What a clock tells the trace

A clock and its session are operated in any order. To the session each operation of the clock comes to
a few actions (`session_operates`): a tick is a step, time that passes is a run of as many steps as
ticks are due, and a clock that is joined runs to its end. So the trace shows what has been executed
since the last fresh start, by a step, by a run or by a tick: `trace_tells_history`.
-/

namespace Octet.Clock

/-- What can be done to a clock and to its session. -/
inductive Operation where
  | start
  | stop
  | singleStep
  | reset
  | join
  | advance (time : Nat)
  | act (action : Session.Action)

/-- The clock after an operation. There is none if a clock is joined that never stops. -/
def operate (c : Clock) : Operation → Option Clock
  | .start => some c.start.1
  | .stop => some c.stop.1
  | .singleStep => some c.singleStep.1
  | .reset => some c.reset
  | .join => c.join
  | .advance time => some (c.advance time)
  | .act action => some { c with session := c.session.act action }

/-- The clock after several operations. -/
def operates (c : Clock) : List Operation → Option Clock
  | [] => some c
  | operation :: rest => (c.operate operation).bind (·.operates rest)

/-- The number of ticks that are due when time has passed. -/
def dueTicks (c : Clock) (time : Nat) : Nat :=
  match c.wait with
  | none => 0
  | some wait => if time < wait then 0 else (time - wait) / c.period + 1

/-- What an operation does to the session. -/
def sessionActions (c : Clock) : Operation → List Session.Action
  | .start => []
  | .stop => []
  | .singleStep => [.forceRunning, .step]
  | .reset => [.reset]
  | .join => if c.isRunning then [.run stateBound] else []
  | .advance time => [.run (c.dueTicks time)]
  | .act action => [action]

/-- What several operations do to the session. -/
def sessionHistory (c : Clock) : List Operation → List Session.Action
  | [] => []
  | operation :: rest =>
    c.sessionActions operation ++ (c.operate operation).elim [] (·.sessionHistory rest)

variable {c c' : Clock} {operation : Operation} {operations : List Operation}

theorem start_session (c : Clock) : c.start.1.session = c.session := by
  unfold start
  split
  · rfl
  · split
    · rfl
    · split <;> rfl

theorem advance_session (c : Clock) (time : Nat) :
    (c.advance time).session = (c.session.run (c.dueTicks time)).1 := by
  unfold advance dueTicks
  cases c.wait with
  | none => rfl
  | some wait =>
    by_cases hlt : time < wait
    · simp only [if_pos hlt]
      rfl
    · simp only [if_neg hlt]
      exact ticks_fst c.session _

theorem join_session (h : c.join = some c') :
    c'.session = if c.isRunning then (c.session.run stateBound).1 else c.session := by
  unfold join at h
  cases hrunning : c.isRunning with
  | false =>
    rw [hrunning, if_neg (by simp)] at h
    obtain rfl := Option.some.inj h
    rfl
  | true =>
    rw [hrunning, if_pos rfl, finishWithin_eq] at h
    obtain ⟨session, hsession, rfl⟩ := Option.map_eq_some_iff.mp h
    cases hlive : (ticks c.session stateBound).2 with
    | true => simp [hlive] at hsession
    | false =>
      rw [hlive, if_neg (by simp)] at hsession
      obtain rfl := Option.some.inj hsession
      rw [if_pos rfl, ← ticks_fst]

theorem session_operate (h : c.operate operation = some c') :
    c'.session = c.session.acts (c.sessionActions operation) := by
  cases operation with
  | start =>
    obtain rfl := Option.some.inj h
    exact start_session c
  | join =>
    rw [join_session h, sessionActions]
    cases c.isRunning <;> rfl
  | advance time =>
    obtain rfl := Option.some.inj h
    exact advance_session c time
  | stop | singleStep | reset | act =>
    obtain rfl := Option.some.inj h
    rfl

theorem session_operates (h : c.operates operations = some c') :
    c'.session = c.session.acts (c.sessionHistory operations) := by
  induction operations generalizing c with
  | nil =>
    obtain rfl := Option.some.inj h
    rfl
  | cons operation rest ih =>
    obtain ⟨next, hnext, hrest⟩ := Option.bind_eq_some_iff.mp h
    rw [sessionHistory, hnext, Session.acts, List.foldl_append]
    rw [ih hrest, session_operate hnext]
    rfl

/-- **A trace tells the recent history.** Let a clock and its session be operated in any order from the
start on. The session has then gone through the steps, runs and edits that these operations come to,
each tick being a step. Its trace shows nothing if it is switched off. Otherwise it shows, oldest
first, the last entries, as many as the limit allows, of all that have been produced since the last
reset and the last program or snapshot that was taken over: one for each instruction, whatever came
of it. In this history each instruction begins where the one before it has ended. -/
theorem trace_tells_history (config : Config) (period : Nat) (hosted : Bool)
    (operations : List Operation) (c' : Clock) :
    let c : Clock := { session := Session.ofConfig config, period, hosted }
    let actions := c.sessionHistory operations
    let told := TraceEvent.recent (c.session.traceHistory actions)
    c.operates operations = some c' →
      c'.session = c.session.acts actions ∧
      c'.session.machine.trace.entries =
        (if config.trace then Trace.latest config.traceLimit told else []) ∧
      Linked told ∧ c'.session.step.2.isSome = c'.session.isRunning := by
  intro c actions told h
  have hsession := session_operates h
  obtain ⟨hentries, hlinked⟩ := Session.entries_acts config actions
  refine ⟨hsession, ?_, hlinked, ?_⟩
  · rw [hsession]
    exact hentries
  · cases hrunning : c'.session.isRunning with
    | true => exact Session.step_isSome hrunning
    | false => rw [Session.step_of_not_running hrunning]; rfl

/-- The program `INC X0`, `HALT`, `SET A0, 40` is executed by a step, by a tick and, once the halt has been
resumed from, by a single step that faults and is repeated. Four entries have been produced, and the
limit of three leaves the last three. -/
theorem trace_tells_history_halted :
    let c := ofSession (Session.ofConfig { clockPeriod := 5, traceLimit := some 3 })
    let operations : List Operation := [.act (.load "INC X0\nHALT\nSET A0, 40"), .act .step, .start,
      .advance 4, .advance 7, .act .resume, .singleStep, .singleStep]
    ∃ c', c.operates operations = some c' ∧
      c'.session.machine.trace.entries.map (·.pc) = [1, 2, 2] ∧
      c'.session.machine.state = .errored (.addressOutOfRange 2 0 40) ∧
      Linked (TraceEvent.recent (c.session.traceHistory (c.sessionHistory operations))) := by
  intro c operations
  have hsome : (c.operates operations).isSome = true := by decide +kernel
  obtain ⟨c', h⟩ := Option.isSome_iff_exists.mp hsome
  obtain ⟨hsession, hentries, hlinked, _⟩ :=
    trace_tells_history { clockPeriod := 5, traceLimit := some 3 } 5 true operations c' h
  refine ⟨c', h, ?_, ?_, hlinked⟩
  · rw [hentries]
    decide +kernel
  · rw [hsession]
    decide +kernel

end Octet.Clock
