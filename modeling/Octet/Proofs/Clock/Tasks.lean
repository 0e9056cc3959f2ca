import Octet.Proofs.Clock.Join

/-!
# Clocks as tasks

What runs a clock is a task: a loop that waits for a period, executes an instruction, and ends when
the machine does not run any more. Starting a clock spawns a task and keeps a handle of it; stopping
it aborts the task of the handle and lets go of the handle. Nothing in this forbids two live tasks.
A `Clockwork` tells a clock in this way, with all the tasks that have ever been spawned, and with
time that passes for all of them, one millisecond after the other.

A clockwork is `Sound` if the task of the handle is the only one that can be live. Whatever is done
keeps it sound, and then it does what the `Clock` does that it shows (`clock`). There is one exception:
joining takes the handle before it waits, so that a join that is given up while it waits (`Abandons`)
leaves behind a live task that nothing can abort any more.
-/

namespace Octet

/-- A loop that executes an instruction at the end of every period. -/
inductive Task where
  /-- The next tick is that far away. -/
  | live (wait : Nat)
  | finished
  | aborted

namespace Task

/-- The time to the next tick, if there is one. -/
def wait? : Task → Option Nat
  | live wait => some wait
  | finished => none
  | aborted => none

/-- A task that has been aborted runs no further tick. One that is over is left as it is. -/
def abort : Task → Task
  | live _ => aborted
  | finished => finished
  | aborted => aborted

/-- One millisecond of a task. -/
def elapse (period : Nat) (s : Session) : Task → Session × Task
  | live wait =>
    if 1 < wait then (s, live (wait - 1))
    else
      match Clock.tick s with
      | (next, true) => (next, live period)
      | (next, false) => (next, finished)
  | finished => (s, finished)
  | aborted => (s, aborted)

/-- One millisecond of some tasks, each on the session that the one before it has left. -/
def elapseAll (period : Nat) (s : Session) : List Task → Session × List Task
  | [] => (s, [])
  | task :: rest =>
    let (s, task) := task.elapse period s
    let (s, rest) := elapseAll period s rest
    (s, task :: rest)

variable {period wait i : Nat} {s : Session} {task : Task} {tasks : List Task}

theorem wait?_eq_some : task.wait? = some wait ↔ task = live wait := by
  cases task <;> simp [wait?]

theorem wait?_abort (task : Task) : task.abort.wait? = none := by
  cases task <;> rfl

theorem elapse_of_over (h : task.wait? = none) : task.elapse period s = (s, task) := by
  cases task with
  | live wait => cases h
  | finished | aborted => rfl

theorem elapse_of_lt (h : 1 < wait) : (live wait).elapse period s = (s, live (wait - 1)) := by
  simp only [elapse, if_pos h]

theorem elapse_of_due (period : Nat) (s : Session) :
    (live 1).elapse period s =
      ((Clock.tick s).1, if (Clock.tick s).2 then live period else finished) := by
  unfold elapse
  rcases Clock.tick s with ⟨next, _ | _⟩ <;> rfl

theorem elapseAll_of_over (h : ∀ task ∈ tasks, task.wait? = none) :
    elapseAll period s tasks = (s, tasks) := by
  induction tasks with
  | nil => rfl
  | cons task rest ih =>
    have hrest := ih fun other hother => h other (List.mem_cons_of_mem _ hother)
    simp only [elapseAll, elapse_of_over (h task List.mem_cons_self), hrest]

/-- Where one task only is live, time passes for this task only. -/
theorem elapseAll_of_one (hi : tasks[i]? = some (live wait))
    (hone : ∀ j task, tasks[j]? = some task → j ≠ i → task.wait? = none) :
    elapseAll period s tasks =
      (((live wait).elapse period s).1, tasks.set i ((live wait).elapse period s).2) := by
  -- the live task is at the head, and the rest is over, or it is in the rest
  induction tasks generalizing i with
  | nil => cases hi
  | cons task rest ih =>
    cases i with
    | zero =>
      obtain rfl : task = live wait := by simpa using hi
      have hrest : ∀ other ∈ rest, other.wait? = none := by
        intro other hother
        obtain ⟨j, hj⟩ := List.mem_iff_getElem?.mp hother
        exact hone (j + 1) other (by simpa using hj) (Nat.succ_ne_zero j)
      simp only [elapseAll, elapseAll_of_over hrest, List.set_cons_zero]
    | succ i =>
      have hover : task.wait? = none := hone 0 task rfl (Nat.succ_ne_zero i).symm
      have hrest := ih (by simpa using hi) fun j other hj hne =>
        hone (j + 1) other (by simpa using hj) (by simpa using hne)
      simp only [elapseAll, elapse_of_over hover, hrest, List.set_cons_succ]

end Task

/-- A session with the tasks that have been spawned to run it. -/
structure Clockwork where
  session : Session
  period : Nat
  /-- Whether there is anything to spawn a task on. -/
  hosted : Bool
  /-- All tasks, in the order in which they have been spawned. -/
  tasks : List Task := []
  /-- The number of the task that a handle is kept of. -/
  handle : Option Nat := none

namespace Clockwork

/-- The time to the next tick of a task. -/
def wait? (w : Clockwork) (i : Nat) : Option Nat :=
  w.tasks[i]?.bind Task.wait?

def isLive (w : Clockwork) (i : Nat) : Bool :=
  (w.wait? i).isSome

/-- Whether there is a handle, and its task is not over. -/
def isRunning (w : Clockwork) : Bool :=
  w.handle.any w.isLive

/-- Spawns a task, unless the task of the handle is live or the machine is not running. -/
def start (w : Clockwork) : Clockwork × Except Clock.Error Bool :=
  if w.period = 0 then (w, .error .zeroPeriod)
  else if w.isRunning || !w.session.isRunning then (w, .ok false)
  else if w.hosted then
    ({ w with tasks := w.tasks ++ [.live w.period], handle := some w.tasks.length }, .ok true)
  else (w, .error .notHosted)

/-- Takes the handle, if there is one, and aborts its task. -/
def stop (w : Clockwork) : Clockwork × Bool :=
  match w.handle with
  | none => (w, false)
  | some i => ({ w with tasks := w.tasks.modify i Task.abort, handle := none }, w.isLive i)

def singleStep (w : Clockwork) : Clockwork × Option Entry :=
  let (session, entry) := w.session.forceRunning.step
  ({ w.stop.1 with session }, entry)

def reset (w : Clockwork) : Clockwork :=
  { w.stop.1 with session := w.session.reset }

/-- One millisecond. -/
def elapse (w : Clockwork) : Clockwork :=
  let (session, tasks) := Task.elapseAll w.period w.session w.tasks
  { w with session, tasks }

def advance (w : Clockwork) : Nat → Clockwork
  | 0 => w
  | time + 1 => w.elapse.advance time

/-- Lets go of the handle. The task goes on. -/
def release (w : Clockwork) : Clockwork :=
  { w with handle := none }

/-- Takes the handle, if there is one, and comes back as soon as its task is over. -/
inductive Joins (w : Clockwork) : Clockwork → Prop where
  | idle (h : w.handle = none) : w.Joins w
  | awaited {i time : Nat} (h : w.handle = some i)
    (hover : (w.release.advance time).isLive i = false)
    (hlive : ∀ earlier < time, (w.release.advance earlier).isLive i = true) :
    w.Joins (w.release.advance time)

/-- Takes the handle, and is given up after this time, when its task is still live. -/
inductive Abandons (w : Clockwork) (time : Nat) : Clockwork → Prop where
  | pending {i : Nat} (h : w.handle = some i)
    (hlive : (w.release.advance time).isLive i = true) : w.Abandons time (w.release.advance time)

/-! ## The clock that is shown -/

/-- The clock that waits for the task of the handle. -/
def clock (w : Clockwork) : Clock where
  session := w.session
  period := w.period
  hosted := w.hosted
  wait := w.handle.bind w.wait?

/-- No task has been spawned. -/
def ofClock (c : Clock) : Clockwork where
  session := c.session
  period := c.period
  hosted := c.hosted

/-- A task that is live is the one of the handle, and its next tick is due within one period. -/
structure Sound (w : Clockwork) : Prop where
  held : ∀ {i wait}, w.wait? i = some wait → w.handle = some i
  due : ∀ {i wait}, w.wait? i = some wait → 0 < wait ∧ wait ≤ w.period

variable {w w' : Clockwork} {c : Clock} {i wait time : Nat}

theorem isRunning_clock (w : Clockwork) : w.clock.isRunning = w.isRunning := by
  unfold Clock.isRunning clock isRunning
  cases w.handle <;> rfl

theorem isLive_iff : w.isLive i = true ↔ ∃ wait, w.wait? i = some wait :=
  Option.isSome_iff_exists

theorem wait?_eq_some : w.wait? i = some wait ↔ w.tasks[i]? = some (.live wait) := by
  unfold wait?
  rw [Option.bind_eq_some_iff]
  constructor
  · rintro ⟨task, htask, hwait⟩
    rw [htask, Task.wait?_eq_some.mp hwait]
  · intro h
    exact ⟨_, h, rfl⟩

theorem clock_ofClock (h : c.wait = none) : (ofClock c).clock = c := by
  obtain ⟨session, period, hosted, wait⟩ := c
  simp only at h
  rw [h]
  rfl

theorem sound_ofClock (c : Clock) : (ofClock c).Sound := by
  constructor <;> intro i wait h <;> cases h

theorem clock_wait_eq_some : w.clock.wait = some wait ↔
    ∃ i, w.handle = some i ∧ w.tasks[i]? = some (.live wait) := by
  show w.handle.bind w.wait? = some wait ↔ _
  simp only [Option.bind_eq_some_iff, wait?_eq_some]

namespace Sound

theorem clock (h : w.Sound) : w.clock.Sound := by
  intro wait hwait
  obtain ⟨i, _, hi⟩ := clock_wait_eq_some.mp hwait
  exact h.due (wait?_eq_some.mpr hi)

theorem isRunning_iff (h : w.Sound) : w.isRunning = true ↔ ∃ i, w.isLive i = true := by
  unfold Clockwork.isRunning
  rw [Option.any_eq_true]
  constructor
  · rintro ⟨i, _, hi⟩
    exact ⟨i, hi⟩
  · rintro ⟨i, hi⟩
    obtain ⟨wait, hwait⟩ := isLive_iff.mp hi
    exact ⟨i, h.held hwait, hi⟩

/-- There is one live task at most. -/
theorem eq_of_isLive (h : w.Sound) {j : Nat} (hi : w.isLive i = true) (hj : w.isLive j = true) :
    i = j := by
  obtain ⟨wait, hwait⟩ := isLive_iff.mp hi
  obtain ⟨wait', hwait'⟩ := isLive_iff.mp hj
  exact Option.some.inj ((h.held hwait).symm.trans (h.held hwait'))

end Sound

end Clockwork

end Octet
