import Mathlib.Data.List.DropRight
import Octet.Proofs.Machine.Log
import Octet.Proofs.Session.Action

/-!
# What an output tells of the past

The output of a session is accounted for by its history: the instructions that have been executed, each
with the data memory below it, and the moments at which the machine has started afresh. Of these only
the instructions that halt count, and only those since the last fresh start (`OutputEvent.halts`). Each
of them has printed the line that its data memory holds (`Bank.line`), one behind the other, and nothing
else has printed anything.

* `Machine.run_output` — a run appends the lines of its halts.
* `act_accounted`, `acts_accounted` — whatever is done to a session, the history goes on accounting for
  its output.
-/

namespace Octet

/-! ## Lines -/

/-- The line that a data memory holds: the characters with the numbers of its bytes, up to the first
zero or all of them if there is none, and a line feed. -/
def Bank.line (bank : Bank) : String :=
  String.ofList ((bank.toList.take (bank.toList.idxOf 0)).map fun b => Char.ofNat b.toNat) ++ "\n"

theorem Bank.text_eq_line (bank : Bank) : bank.text 0 ++ "\n" = bank.line := by
  have htake : bank.toList.takeWhile (· != 0) = bank.toList.take (bank.toList.idxOf 0) := by
    rw [List.takeWhile_eq_take_findIdx_not, List.idxOf]
    congr 2
    funext b
    exact Bool.not_not (b == 0)
  have hnumber : Char.ofUInt8 = fun b => Char.ofNat b.toNat := by
    funext b
    exact (Char.ofNat_toNat (Char.ofUInt8 b)).symm
  unfold text line
  rw [show (0 : UInt8).toNat = 0 from rfl, List.drop_zero, htake, hnumber]

/-! ## Histories -/

/-- What happens to a machine that may be seen in its output. -/
inductive OutputEvent where
  /-- An instruction is executed, over this data memory. -/
  | executed (op : Op) (data : Bank)
  /-- The machine starts afresh. -/
  | cleared
  deriving DecidableEq

namespace OutputEvent

/-- The data memory that is printed. -/
def printed? : OutputEvent → Option Bank
  | executed .halt data => some data
  | executed _ _ => none
  | cleared => none

/-- The data memories at the instructions that have halted since the last fresh start. -/
def halts (history : List OutputEvent) : List Bank :=
  (history.rtakeWhile (· ≠ cleared)).filterMap printed?

/-- What halting instructions have printed since the last fresh start. -/
def output (history : List OutputEvent) : String :=
  String.join ((halts history).map Bank.line)

variable {history later : List OutputEvent}

theorem halts_append (h : cleared ∉ later) :
    halts (history ++ later) = halts history ++ later.filterMap printed? := by
  have hpos : ∀ event ∈ later.reverse, decide (event ≠ cleared) = true := by
    intro event hevent
    apply decide_eq_true
    rintro rfl
    exact h (List.mem_reverse.mp hevent)
  unfold halts List.rtakeWhile
  rw [List.reverse_append, List.takeWhile_append_of_pos hpos, List.reverse_append,
    List.reverse_reverse, List.filterMap_append]

theorem halts_cleared (history : List OutputEvent) : halts (history ++ [cleared]) = [] := by
  unfold halts
  rw [List.rtakeWhile_concat_neg _ _ _ (by simp)]
  rfl

theorem output_append (h : cleared ∉ later) :
    output (history ++ later) =
      output history ++ String.join ((later.filterMap printed?).map Bank.line) := by
  unfold output
  rw [halts_append h, List.map_append, String.join_append]

end OutputEvent

namespace Machine

variable {isa : Isa} {m : Machine isa}

/-! ## Runs -/

/-- What is executed next, if the machine is running. -/
def execution (m : Machine isa) : OutputEvent :=
  .executed m.fetch.op m.data

/-- What a run of at most `n` instructions executes. -/
def executions (m : Machine isa) (n : Nat) : List OutputEvent :=
  (List.range (m.run n).2).map fun k => (m.run k).1.execution

theorem executions_of_not_running (h : m.state.isRunning = false) (n : Nat) : m.executions n = [] := by
  unfold executions
  rw [run_of_not_running h]
  rfl

theorem executions_succ (h : m.state.isRunning = true) (n : Nat) :
    m.executions (n + 1) = m.execution :: m.step.1.executions n := by
  unfold executions
  rw [run_succ h, List.range_succ_eq_map, List.map_cons, List.map_map]
  congr 1
  apply List.map_congr_left
  intro k _
  rw [Function.comp_apply, Nat.succ_eq_add_one, run_succ h]

theorem cleared_notMem_executions (m : Machine isa) (n : Nat) : .cleared ∉ m.executions n := by
  unfold executions execution
  simp

theorem printed_eq_line (h : m.state.isRunning = true) :
    m.printed = String.join (m.execution.printed?.toList.map Bank.line) := by
  unfold printed execution
  by_cases hop : m.fetch.op = .halt
  · rw [if_pos ⟨h, hop⟩, hop, Bank.text_eq_line]
    simp [OutputEvent.printed?]
  · rw [if_neg fun hboth => hop hboth.2]
    cases hother : m.fetch.op with
    | halt => exact absurd hother hop
    | _ => rfl

/-- A run appends the lines of the instructions that halt, and nothing else. -/
theorem run_output (m : Machine isa) (n : Nat) :
    (m.run n).1.output =
      m.output ++ String.join (((m.executions n).filterMap OutputEvent.printed?).map Bank.line) := by
  induction n generalizing m with
  | zero => exact String.append_empty.symm
  | succ n ih =>
    cases h : m.state.isRunning with
    | false =>
      rw [run_of_not_running h, executions_of_not_running h]
      exact String.append_empty.symm
    | true =>
      rw [run_succ h, executions_succ h]
      show (m.step.1.run n).1.output = _
      rw [ih, step_output, printed_eq_line h, List.filterMap_cons, String.append_assoc]
      cases m.execution.printed? <;> simp

end Machine

namespace Session

open OutputEvent (cleared)

/-! ## Sessions -/

/-- What an action adds to the history. -/
def outputEvents (s : Session) : Action → List OutputEvent
  | .step => s.machine.executions 1
  | .run n => s.machine.executions n
  | .runToLimit => s.machine.executions s.config.maxSteps
  | .load source => if (s.load source).isOk then [cleared] else []
  | .restore snapshot => if (s.restore snapshot).isOk then [cleared] else []
  | .reset => [cleared]
  | .resume => []
  | .forceRunning => []
  | .writeRegister .. => []
  | .writeData .. => []
  | .writeInstruction .. => []

/-- What several actions add to the history. -/
def outputHistory (s : Session) : List Action → List OutputEvent
  | [] => []
  | action :: rest => s.outputEvents action ++ (s.act action).outputHistory rest

/-- The history accounts for all that the session has printed. -/
def Accounted (s : Session) (past : List OutputEvent) : Prop :=
  s.machine.output = OutputEvent.output past

variable {s s' : Session} {past : List OutputEvent}

theorem accounted_ofConfig (config : Config) : (ofConfig config).Accounted [] := rfl

theorem Accounted.run (h : s.Accounted past) (n : Nat) :
    (s.run n).1.Accounted (past ++ s.machine.executions n) := by
  show (s.machine.run n).1.output = _
  rw [Machine.run_output, OutputEvent.output_append (s.machine.cleared_notMem_executions n), h]

/-- What prints nothing adds nothing. -/
theorem Accounted.of_same (h : s.Accounted past) (hsame : s'.machine.output = s.machine.output) :
    s'.Accounted (past ++ []) := by
  unfold Accounted at h ⊢
  rw [hsame, h, List.append_nil]

/-- After a fresh start nothing has been printed. -/
theorem accounted_cleared (past : List OutputEvent) (hempty : s'.machine.output = "") :
    s'.Accounted (past ++ [cleared]) := by
  unfold Accounted OutputEvent.output
  rw [hempty, OutputEvent.halts_cleared]
  rfl

/-- The step lemma of the history: it accounts for the output after any action. -/
theorem act_accounted (h : s.Accounted past) (action : Action) :
    (s.act action).Accounted (past ++ s.outputEvents action) := by
  cases action with
  | step =>
    show s.step.1.Accounted _
    have hrun : (s.run 1).1 = s.step.1 := run_fst s 1
    rw [← hrun]
    exact h.run 1
  | run n => exact h.run n
  | runToLimit => exact h.run s.config.maxSteps
  | load source =>
    simp only [act, outputEvents]
    cases hload : s.load source with
    | ok result =>
      obtain ⟨loaded, program⟩ := result
      obtain ⟨_, rfl⟩ := load_eq_ok.mp hload
      exact accounted_cleared past rfl
    | error diagnostics => exact h.of_same rfl
  | restore snapshot =>
    simp only [act, outputEvents]
    cases hrestore : s.restore snapshot with
    | ok restored =>
      obtain ⟨_, _, _, _, _, rfl⟩ := restore_eq_ok.mp hrestore
      exact accounted_cleared past rfl
    | error e => exact h.of_same rfl
  | reset => exact accounted_cleared past rfl
  | resume => exact h.of_same s.machine.resume_output
  | writeRegister name value =>
    simp only [act]
    rcases s.writeRegister_fst name value with hwrite | ⟨r, hwrite⟩
    · rw [hwrite]
      exact h.of_same rfl
    · rw [hwrite]
      exact h.of_same (s.machine.hostWriteRegister_output r value)
  | forceRunning | writeData | writeInstruction => exact h.of_same rfl

theorem acts_accounted (h : s.Accounted past) (actions : List Action) :
    (s.acts actions).Accounted (past ++ s.outputHistory actions) := by
  induction actions generalizing s past with
  | nil =>
    rw [outputHistory, List.append_nil]
    exact h
  | cons action rest ih =>
    rw [outputHistory, ← List.append_assoc]
    exact ih (act_accounted h action)

end Session

end Octet
