import Octet.Proofs.Session.Flags

/-!
# Fresh starts

A reset clears a machine field by field, and what it leaves are the settings of the trace. They stand
beside the entries of the trace, and no action changes them (`act_trace_clear`). So a session that is
reset is the one that its configuration gives (`reset_eq_ofConfig`), whatever has been done with it.
Loading a program and restoring a snapshot begin with a reset, so that what follows depends on
nothing that was before.

The main statement is `no_history_survives`.
-/

namespace Octet

/-! ## The settings of the trace -/

namespace Machine

variable {isa : Isa}

/-- A step adds to the trace, and leaves its settings. -/
theorem step_trace_clear (m : Machine isa) : m.step.1.trace.clear = m.trace.clear := by
  unfold step
  split
  · have htrace := (execute_sameControl m m.fetch).trace
    simp only [Trace.clear_push, follow_trace, htrace]
  · rfl

theorem run_trace_clear (m : Machine isa) (n : Nat) : (m.run n).1.trace.clear = m.trace.clear :=
  run_induction (P := fun m' => m'.trace.clear = m.trace.clear)
    (fun m' h => (step_trace_clear m').trans h) rfl n

theorem resume_trace (m : Machine isa) : m.resume.trace = m.trace := by
  unfold resume
  cases m.state <;> rfl

theorem hostWriteRegister_trace (m : Machine isa) (r : Reg) (v : UInt8) :
    (m.hostWriteRegister r v).1.trace = m.trace := by
  rw [hostWriteRegister_eq]
  exact (writeRegister_sameControl m r v m.pc).trace

end Machine

namespace Session

variable {s : Session}

theorem act_trace_clear (s : Session) (action : Action) :
    (s.act action).machine.trace.clear = s.machine.trace.clear := by
  cases action with
  | load source =>
    simp only [act]
    split
    · next loaded program h =>
      obtain ⟨_, rfl⟩ := load_eq_ok.mp h
      rfl
    · rfl
  | step =>
    simp only [act]
    rw [step_fst]
    exact s.machine.step_trace_clear
  | run n => exact s.machine.run_trace_clear n
  | runToLimit => exact s.machine.run_trace_clear s.config.maxSteps
  | resume => exact congrArg Trace.clear s.machine.resume_trace
  | writeRegister name value =>
    simp only [act]
    rcases s.writeRegister_fst name value with h | ⟨r, h⟩
    · rw [h]
    · rw [h]
      exact congrArg Trace.clear (s.machine.hostWriteRegister_trace r value)
  | restore snapshot =>
    simp only [act]
    split
    · next restored h =>
      obtain ⟨_, _, _, _, _, rfl⟩ := restore_eq_ok.mp h
      rfl
    · rfl
  | forceRunning => rfl
  | writeData address value => rfl
  | writeInstruction address value => rfl
  | reset => rfl

theorem acts_trace_clear (s : Session) (actions : List Action) :
    (s.acts actions).machine.trace.clear = s.machine.trace.clear :=
  acts_induction (fun s' => s'.machine.trace.clear = s.machine.trace.clear) (fun _ => True)
    (fun s' action _ h => (act_trace_clear s' action).trans h) rfl actions fun _ _ => trivial

/-! ## Resets -/

/-- Where the settings of the trace are those of the configuration, a reset leaves nothing else. -/
theorem reset_eq_ofConfig
    (h : s.machine.trace.clear = (ofConfig s.config).machine.trace) : s.reset = ofConfig s.config := by
  simp only [reset, Machine.reset, h]
  rfl

/-- A program is loaded into the session as a reset leaves it. -/
theorem load_reset (s : Session) (source : String) : s.reset.load source = s.load source := rfl

theorem restore_reset (s : Session) (snapshot : Snapshot) :
    s.reset.restore snapshot = s.restore snapshot := rfl

/-- What an action that begins with a reset asks for, so that it does not fail. -/
def Action.StartsAfresh (isa : Isa) : Action → Prop
  | reset => True
  | load source => ∃ program, Assembly.assemble isa source = .ok program
  | restore snapshot => snapshot.Restorable isa
  | _ => False

/-- The answers to several actions. -/
def answers (s : Session) : List Action → List Answer
  | [] => []
  | action :: rest => s.answer action :: (s.act action).answers rest

theorem act_reset {action : Action} (h : action.StartsAfresh s.config.isa) :
    s.reset.act action = s.act action ∧ s.reset.answer action = s.answer action := by
  cases action with
  | reset => exact ⟨rfl, rfl⟩
  | load source =>
    obtain ⟨program, hprogram⟩ := h
    have hload := load_eq_ok.mpr ⟨hprogram, rfl⟩
    simp [act, answer, load_reset, hload]
  | restore snapshot =>
    obtain ⟨restored, hrestored⟩ := exists_restore_iff.mpr h
    simp [act, answer, restore_reset, hrestored]
  | step | run | runToLimit | resume | forceRunning | writeRegister | writeData
  | writeInstruction => cases h

/-- Whatever has been done to a session, a reset makes it the session that its configuration gives, and
loading a source has the outcome that it has there. So after a reset, after a program that has been
loaded and after a snapshot that has been restored, all that is done has the answers that it has on a
fresh session, and leads to the same session. -/
theorem no_history_survives (config : Config) (history : List Action) :
    let s := (ofConfig config).acts history
    s.config = config ∧ s.reset = ofConfig s.config ∧
      (∀ source, s.load source = (ofConfig s.config).load source) ∧
      ∀ action later, action.StartsAfresh config.isa →
        s.answers (action :: later) = (ofConfig config).answers (action :: later) ∧
        s.acts (action :: later) = (ofConfig config).acts (action :: later) := by
  intro s
  have hconfig : s.config = config := acts_config (ofConfig config) history
  have htrace : s.machine.trace.clear = (ofConfig config).machine.trace :=
    acts_trace_clear (ofConfig config) history
  have hreset : s.reset = ofConfig s.config :=
    reset_eq_ofConfig (htrace.trans (by rw [hconfig]))
  refine ⟨hconfig, hreset, ?_, ?_⟩
  · intro source
    rw [← hreset, load_reset]
  · intro action later hafresh
    rw [hconfig] at hreset
    rw [← hconfig] at hafresh
    obtain ⟨hact, hanswer⟩ := act_reset hafresh
    rw [hreset] at hact hanswer
    constructor
    · simp only [answers, hact, hanswer]
    · show (s.act action).acts later = ((ofConfig config).act action).acts later
      rw [hact]

/-- A machine that has faulted, printed and halted, before a program is loaded that prints as well. -/
theorem no_history_survives_printed :
    let history : List Action := [.writeRegister "A0".toList 40, .writeData 0 72, .forceRunning, .step]
    let later : List Action := [.load "HALT\nDATA 49", .run 5]
    ((ofConfig {}).acts history).machine.output = "H\n" ∧
      ((ofConfig {}).acts history).machine.registers.read 0 = 40 ∧
      ((ofConfig {}).acts (history ++ later)).machine.output = "I\n" ∧
      (ofConfig {}).acts (history ++ later) = (ofConfig {}).acts later := by
  intro history later
  have hload : Action.StartsAfresh .cdc8512 (.load "HALT\nDATA 49") := ⟨_, by rfl⟩
  have hsame : (ofConfig {}).acts (history ++ later) = (ofConfig {}).acts later := by
    have hacts := ((no_history_survives {} history).2.2.2 _ [.run 5] hload).2
    rw [acts, List.foldl_append]
    exact hacts
  refine ⟨by decide +kernel, by decide +kernel, ?_, hsame⟩
  rw [hsame]
  decide +kernel

end Session

end Octet
