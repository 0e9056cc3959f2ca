import Octet.Proofs.Clock.OneTask
import Octet.Proofs.Session.Action

/-!
# Joins that are given up

Joining takes the handle of a task, and then waits for the task. When it is given up while it waits, the
task is live and there is no handle of it, so that nothing can abort it any more.

Of all that is true of a clock whose joins come back, this is not true then: that one task is live at
most; that a stop says whether one is, and that a start is refused while one is; that no more than one
instruction is executed for each period; and that after a stop nothing changes until the next start. A
single step is one instruction as before.

The main statement is `abandoned_task_goes_on`.
-/

namespace Octet.Clockwork

open Clock (Event)

variable {w w' : Clockwork} {time : Nat}

/-! ## A clockwork without a handle -/

theorem isRunning_of_no_handle (h : w.handle = none) : w.isRunning = false := by
  unfold isRunning
  rw [h]
  rfl

theorem stop_of_no_handle (h : w.handle = none) : w.stop = (w, false) := by
  unfold stop
  rw [h]

/-- Where there is no handle, a start always spawns a task, whatever tasks are live. -/
theorem start_of_no_handle (h : w.handle = none) (hperiod : w.period ≠ 0) (hhosted : w.hosted = true)
    (hrunning : w.session.isRunning = true) :
    w.start = ({ w with tasks := w.tasks ++ [.live w.period], handle := some w.tasks.length },
      .ok true) := by
  have hstart : ¬ (w.isRunning || !w.session.isRunning) = true := by
    simp [isRunning_of_no_handle h, hrunning]
  unfold start
  rw [if_neg hperiod, if_neg hstart, if_pos hhosted]

theorem advance_add (w : Clockwork) (time later : Nat) :
    w.advance (time + later) = (w.advance time).advance later := by
  induction time generalizing w with
  | zero => rw [Nat.zero_add]; rfl
  | succ time ih => rw [Nat.succ_add]; exact ih w.elapse

/-! ## The task that is left behind -/

/-- The task goes on executing instructions as if there were a handle of it. -/
theorem Abandons.session_advance (h : w.Abandons time w') (hsound : w.Sound) (later : Nat) :
    (w'.advance later).session = (w.clock.advance (time + later)).session := by
  cases h with
  | pending =>
    rw [← advance_add, advance_release, ← (hsound.advance (time + later)).2]
    rfl

/-- A start spawns a second task that is live. -/
theorem Abandons.start (h : w.Abandons time w') (hperiod : w'.period ≠ 0) (hhosted : w'.hosted = true)
    (hrunning : w'.session.isRunning = true) :
    w'.start.2 = .ok true ∧
      ∃ i j, i ≠ j ∧ w'.start.1.isLive i = true ∧ w'.start.1.isLive j = true := by
  obtain ⟨i, hlive, hhandle⟩ := h.detached
  rw [start_of_no_handle hhandle hperiod hhosted hrunning]
  obtain ⟨wait, hwait⟩ := isLive_iff.mp hlive
  have hi : w'.tasks[i]? = some (.live wait) := wait?_eq_some.mp hwait
  have hlt : i < w'.tasks.length := (List.getElem?_eq_some_iff.mp hi).1
  refine ⟨rfl, i, w'.tasks.length, Nat.ne_of_lt hlt, ?_, ?_⟩
  · refine isLive_iff.mpr ⟨wait, wait?_eq_some.mpr ?_⟩
    rw [List.getElem?_append_left hlt]
    exact hi
  · refine isLive_iff.mpr ⟨w'.period, wait?_eq_some.mpr ?_⟩
    exact List.getElem?_concat_length

/-- **A task whose join is given up goes on.** It is live, and the clock is not running. A stop says that
there was nothing to stop, and neither it nor a single step nor a reset aborts the task. As time passes, it
executes what the clock would have executed. Starting the clock, if the machine is running, spawns another
task beside it. -/
theorem abandoned_task_goes_on (hsound : w.Sound) (h : w.Abandons time w') :
    (∃ i, w'.isLive i = true) ∧ w'.isRunning = false ∧ w'.stop = (w', false) ∧
      w'.singleStep.1.tasks = w'.tasks ∧ w'.reset.tasks = w'.tasks ∧
      (∀ later, (w'.advance later).session = (w.clock.advance (time + later)).session) ∧
      (w'.period ≠ 0 → w'.hosted = true → w'.session.isRunning = true →
        w'.start.2 = .ok true ∧
          ∃ i j, i ≠ j ∧ w'.start.1.isLive i = true ∧ w'.start.1.isLive j = true) := by
  obtain ⟨i, hlive, hhandle⟩ := h.detached
  have hstop := stop_of_no_handle hhandle
  refine ⟨⟨i, hlive⟩, isRunning_of_no_handle hhandle, hstop, ?_, ?_, h.session_advance hsound,
    h.start⟩
  · show w'.stop.1.tasks = w'.tasks
    rw [hstop]
  · show w'.stop.1.tasks = w'.tasks
    rw [hstop]

/-- The loop `INC X0`, `JP loop` is started, and a join is given up after one millisecond. A stop then says
that the clock was not running, and still an instruction is executed when the period is over. Started
again, the clock has two live tasks, which execute two instructions in one period. -/
theorem abandoned_task_started_again :
    let c := Clock.ofSession ((Session.ofConfig {}).act (.load "loop: INC X0\nJP loop"))
    let log : List Event :=
      [(.start, .started (.ok true)), (.abandon 1, .done), (.stop, .stopped false)]
    ∃ w, Runs Does (ofClock c) log w ∧ (∃ i, w.isLive i = true) ∧
      (w.advance 499).session.steps = w.session.steps + 1 ∧ w.start.2 = .ok true ∧
      (∃ i j, i ≠ j ∧ w.start.1.isLive i = true ∧ w.start.1.isLive j = true) ∧
      w.period = 500 ∧ (w.start.1.advance 500).session.steps = w.session.steps + 2 := by
  intro c log
  let live := (ofClock c).start.1
  let w := live.release.advance 1
  have hstart : (ofClock c).Does (.start, .started (.ok true)) live := by
    have hanswer : (ofClock c).start.2 = .ok true := by decide +kernel
    rw [← hanswer]
    exact .start
  have hhandle : live.handle = some 0 := by decide +kernel
  have habandons : live.Abandons 1 w := .pending hhandle (by decide +kernel)
  obtain ⟨hlive, -, hstop, -, -, hsession, hagain⟩ :=
    abandoned_task_goes_on (sound_ofClock c).start.1 habandons
  have hstopped : w.Does (.stop, .stopped false) w := by
    have hdoes : w.Does (.stop, .stopped w.stop.2) w.stop.1 := .stop
    rwa [hstop] at hdoes
  obtain ⟨hstarted, htwo⟩ := hagain (by decide +kernel) (by decide +kernel) (by decide +kernel)
  refine ⟨w, .cons hstart (.cons (.abandon habandons) (.cons hstopped (.nil w))), hlive, ?_, hstarted,
    htwo, by decide +kernel, by decide +kernel⟩
  rw [hsession]
  decide +kernel

end Octet.Clockwork
