import Octet.Proofs.Machine.Eviction
import Octet.Proofs.Session.FreshStart

/-!
# What a session tells its trace

Stepping and running tell the trace of the instructions that are executed. A reset clears it, and so do a
program and a snapshot that are taken over; nothing else tells it of anything, nor moves the program
counter. So every action carries on what the trace has been told of (`act_tells`), and what a session
shows is the end of it (`entries_acts`). A trace that drops entries at once would show the same
(`entries_acts_evicting`).
-/

namespace Octet.Session

open TraceEvent (executed cleared)

/-- What an action tells the trace of. -/
def traceEvents (s : Session) : Action → List TraceEvent
  | .step => s.step.2.toList.map executed
  | .run n => (s.machine.runEntries n).map executed
  | .runToLimit => (s.machine.runEntries s.config.maxSteps).map executed
  | .load source => if (s.load source).isOk then [cleared] else []
  | .restore snapshot => if (s.restore snapshot).isOk then [cleared] else []
  | .reset => [cleared]
  | .resume => []
  | .forceRunning => []
  | .writeRegister .. => []
  | .writeData .. => []
  | .writeInstruction .. => []

/-- What several actions tell the trace of. -/
def traceHistory (s : Session) : List Action → List TraceEvent
  | [] => []
  | action :: rest => s.traceEvents action ++ (s.act action).traceHistory rest

variable {s : Session} {told : List Entry}

theorem tells_ofConfig (config : Config) : (ofConfig config).machine.Tells [] :=
  Machine.tells_nil (m := (ofConfig config).machine) rfl

/-- A write from outside leaves program counter and trace alone. -/
theorem hostWriteRegister_tells {isa : Isa} {m : Machine isa} (h : m.Tells told) (r : Reg) (v : UInt8) :
    (m.hostWriteRegister r v).1.Tells told := by
  refine h.of_same (m.hostWriteRegister_trace r v) ?_
  rw [Machine.hostWriteRegister_eq]
  exact (Machine.writeRegister_sameControl m r v m.pc).pc

theorem act_tells (h : s.machine.Tells told) (action : Action) :
    (s.act action).machine.Tells ((s.traceEvents action).foldl TraceEvent.after told) := by
  cases action with
  | step =>
    rw [traceEvents, TraceEvent.foldl_executed, step_snd]
    show s.step.1.machine.Tells _
    rw [step_fst]
    exact h.step
  | run n =>
    rw [traceEvents, TraceEvent.foldl_executed]
    exact h.run n
  | runToLimit =>
    rw [traceEvents, TraceEvent.foldl_executed]
    exact h.run s.config.maxSteps
  | load source =>
    simp only [act, traceEvents]
    cases hload : s.load source with
    | ok result =>
      obtain ⟨loaded, program⟩ := result
      obtain ⟨_, rfl⟩ := load_eq_ok.mp hload
      exact Machine.tells_nil (m := s.machine) rfl
    | error diagnostics => exact h
  | restore snapshot =>
    simp only [act, traceEvents]
    cases hrestore : s.restore snapshot with
    | ok restored =>
      obtain ⟨_, _, _, _, _, rfl⟩ := restore_eq_ok.mp hrestore
      exact Machine.tells_nil (m := s.machine) rfl
    | error e => exact h
  | reset => exact Machine.tells_nil (m := s.machine) rfl
  | resume =>
    refine h.of_same s.machine.resume_trace ?_
    show s.machine.resume.pc = s.machine.pc
    unfold Machine.resume
    cases s.machine.state <;> rfl
  | writeRegister name value =>
    simp only [act]
    rcases s.writeRegister_fst name value with hwrite | ⟨r, hwrite⟩
    · rw [hwrite]
      exact h
    · rw [hwrite]
      exact hostWriteRegister_tells h r value
  | forceRunning => exact h.of_same rfl rfl
  | writeData address value => exact h.of_same rfl rfl
  | writeInstruction address value => exact h.of_same rfl rfl

theorem acts_tells (h : s.machine.Tells told) (actions : List Action) :
    (s.acts actions).machine.Tells ((s.traceHistory actions).foldl TraceEvent.after told) := by
  induction actions generalizing s told with
  | nil => exact h
  | cons action rest ih =>
    rw [traceHistory, List.foldl_append]
    exact ih (act_tells h action)

/-- What a session shows after any actions is the end of what its trace has been told of. -/
theorem entries_acts (config : Config) (actions : List Action) :
    let told := TraceEvent.recent ((ofConfig config).traceHistory actions)
    ((ofConfig config).acts actions).machine.trace.entries =
        (if config.trace then Trace.latest config.traceLimit told else []) ∧
      Linked told := by
  intro told
  have htells := acts_tells (tells_ofConfig config) actions
  rw [TraceEvent.foldl_after] at htells
  obtain ⟨henabled, hlimit⟩ :=
    Trace.settings_eq_of_clear_eq (acts_trace_clear (ofConfig config) actions)
  refine ⟨?_, htells.linked⟩
  rw [htells.records.entries_eq, henabled, hlimit]
  rfl

/-- A session shows what a trace stores that is told the same and drops entries at once. -/
theorem entries_acts_evicting (config : Config) (actions : List Action) :
    ((ofConfig config).acts actions).machine.trace.entries =
      (((ofConfig config).traceHistory actions).foldl Trace.tellEvicting
        (ofConfig config).machine.trace).stored.toList := by
  rw [(entries_acts config actions).1]
  exact (Trace.toList_foldl_tellEvicting (ofConfig config).machine.trace _).symm

end Octet.Session
