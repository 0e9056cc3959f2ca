import Mathlib.Data.Nat.Count
import Octet.Proofs.Machine.Run
import Octet.Session.Basic

/-!
# Runs of a session

A session steps and runs as its machine does and counts what is executed. The equations are the ones
of the machine: `run_succ`, `run_of_not_running`, and from them `run_add`.

`step` and `run` count on their own, the one at each step and the other at the end. They come to the
same: a run leaves the session that so many calls of `step` leave (`stepped`), and its count is that
of the calls that give an entry.
-/

namespace Octet.Session

variable {s : Session}

/-- A step of a session is a step of its machine, and is counted if it executes an instruction. -/
theorem step_fst (s : Session) :
    s.step.1 = { s with
      machine := s.machine.step.1
      steps := s.steps + if s.machine.step.2.isSome then 1 else 0 } := by
  obtain ⟨config, machine, program, steps⟩ := s
  simp only [step]
  rcases machine.step with ⟨machine', entry⟩
  cases entry <;> rfl

theorem step_snd (s : Session) : s.step.2 = s.machine.step.2 := by
  obtain ⟨config, machine, program, steps⟩ := s
  simp only [step]
  rcases machine.step with ⟨machine', entry⟩
  cases entry <;> rfl

theorem step_isSome (h : s.isRunning = true) : s.step.2.isSome = true := by
  obtain ⟨config, machine, program, steps⟩ := s
  have hentry := Machine.step_isSome (m := machine) h
  simp only [step]
  rcases hstep : machine.step with ⟨machine', entry⟩
  rw [hstep] at hentry
  cases entry with
  | none => cases hentry
  | some entry => rfl

@[simp]
theorem run_zero : s.run 0 = (s, 0) := rfl

theorem run_of_not_running (h : s.isRunning = false) (n : Nat) : s.run n = (s, 0) := by
  unfold run
  rw [Machine.run_of_not_running h]
  rfl

theorem run_succ (h : s.isRunning = true) (n : Nat) :
    s.run (n + 1) = ((s.step.1.run n).1, (s.step.1.run n).2 + 1) := by
  have hentry := Machine.step_isSome h
  rw [step_fst, if_pos hentry]
  unfold run
  rw [Machine.run_succ h]
  simp [Nat.add_assoc, Nat.add_comm 1]

theorem run_add (s : Session) (n k : Nat) :
    s.run (n + k) = (((s.run n).1.run k).1, (s.run n).2 + ((s.run n).1.run k).2) := by
  unfold run
  rw [Machine.run_add]
  simp [Nat.add_assoc]

/-- A run executes as many instructions as it is told to, or is one that is told to execute fewer. -/
theorem run_executed (s : Session) (n : Nat) :
    (s.run n).2 ≤ n ∧ s.run (s.run n).2 = s.run n := by
  induction n generalizing s with
  | zero => exact ⟨Nat.le_refl 0, rfl⟩
  | succ n ih =>
    cases h : s.isRunning with
    | true =>
      obtain ⟨hle, hsame⟩ := ih s.step.1
      have hcount : (s.run (n + 1)).2 = (s.step.1.run n).2 + 1 := by rw [run_succ h]
      rw [hcount]
      constructor
      · exact Nat.succ_le_succ hle
      · rw [run_succ h, run_succ h, hsame]
    | false =>
      rw [run_of_not_running h]
      exact ⟨Nat.zero_le _, rfl⟩

/-! ## Runs as calls of `step` -/

/-- The session after `n` calls of `step`, whether or not they execute an instruction. -/
def stepped (s : Session) (n : Nat) : Session :=
  (fun s => s.step.1)^[n] s

theorem stepped_succ (s : Session) (n : Nat) : s.stepped (n + 1) = s.step.1.stepped n := rfl

theorem step_of_not_running (h : s.isRunning = false) : s.step = (s, none) := by
  obtain ⟨config, machine, program, steps⟩ := s
  simp only [step, Machine.step_of_not_running h]

theorem stepped_of_not_running (h : s.isRunning = false) (n : Nat) : s.stepped n = s :=
  Function.iterate_fixed (congrArg Prod.fst (step_of_not_running h)) n

theorem run_fst (s : Session) (n : Nat) : (s.run n).1 = s.stepped n := by
  induction n generalizing s with
  | zero => rfl
  | succ n ih =>
    cases h : s.isRunning with
    | true => rw [run_succ h, stepped_succ, ih]
    | false => rw [run_of_not_running h, stepped_of_not_running h]

theorem run_snd (s : Session) (n : Nat) :
    (s.run n).2 = Nat.count (fun k => (s.stepped k).step.2.isSome) n := by
  induction n generalizing s with
  | zero => rfl
  | succ n ih =>
    cases h : s.isRunning with
    | true =>
      have hfirst : (s.stepped 0).step.2.isSome = true := step_isSome h
      rw [Nat.count_succ', if_pos hfirst, run_succ h, ih]
      rfl
    | false =>
      have hnone : ∀ k, ¬ (s.stepped k).step.2.isSome = true := by
        simp [stepped_of_not_running h, step_of_not_running h]
      rw [run_of_not_running h, Nat.count_of_forall_not fun k _ => hnone k]

/-- Running on to a limit changes nothing where the machine has stopped before. -/
theorem run_of_stopped {n limit : Nat} (h : (s.run n).1.isRunning = false) (hle : n ≤ limit) :
    (s.run limit).1 = (s.run n).1 := by
  obtain ⟨more, rfl⟩ := Nat.le.dest hle
  rw [run_add, run_of_not_running h]

/-- Only a machine that has stopped executes less than it is told to. -/
theorem run_of_executed_lt {n : Nat} (h : (s.run n).2 < n) : (s.run n).1.isRunning = false := by
  induction n generalizing s with
  | zero => cases h
  | succ n ih =>
    cases hrunning : s.isRunning with
    | true =>
      rw [run_succ hrunning] at h ⊢
      exact ih (Nat.lt_of_succ_lt_succ h)
    | false => rwa [run_of_not_running hrunning]

/-- Two runs after one another are one run of both lengths, and a run is as many calls of `step`: it
leaves the same session, it counts the calls that give an entry, and it ends early only if the
machine no longer runs. -/
theorem run_eq_steps (s : Session) :
    (∀ m n, ((s.run m).1.run n).1 = (s.run (m + n)).1 ∧
      (s.run m).2 + ((s.run m).1.run n).2 = (s.run (m + n)).2) ∧
    ∀ n, (s.run n).1 = s.stepped n ∧
      (s.run n).2 = Nat.count (fun k => (s.stepped k).step.2.isSome) n ∧
      ((s.run n).2 < n → (s.run n).1.machine.state ≠ .running) := by
  refine ⟨fun m n => ?_, fun n => ⟨run_fst s n, run_snd s n, fun h hrunning => ?_⟩⟩
  · rw [run_add]
    exact ⟨rfl, rfl⟩
  · have hstopped := run_of_executed_lt h
    unfold isRunning at hstopped
    rw [hrunning] at hstopped
    cases hstopped

/-- A machine without a program executes the first of five instructions, which halts it. -/
theorem run_eq_steps_of_empty :
    let s := ofConfig {}
    (s.run 5).2 < 5 ∧ (s.run 5).1.machine.state ≠ .running := by
  intro s
  have hless : (s.run 5).2 < 5 := by decide +kernel
  exact ⟨hless, ((run_eq_steps s).2 5).2.2 hless⟩

end Octet.Session
