import Octet.Proofs.Machine.Step

/-!
# Runs as steps

A run is the steps that it is made of: it takes the first one and runs on, and where the machine
does not run it does nothing. From these two equations follows that runs compose, with their counts
adding up, and that a run preserves what every step preserves.
-/

namespace Octet.Machine

variable {isa : Isa} {m : Machine isa}

/-- The instructions that have been executed before are counted, and change nothing else. -/
theorem runFrom_eq (m : Machine isa) (executed n : Nat) :
    m.runFrom executed n = ((m.run n).1, executed + (m.run n).2) := by
  unfold run
  induction n generalizing m executed with
  | zero => rfl
  | succ n ih =>
    unfold runFrom
    split
    · next m' entry _ =>
      rw [ih m' (executed + 1), ih m' (0 + 1)]
      simp [Nat.add_assoc]
    · rfl

@[simp]
theorem run_zero : m.run 0 = (m, 0) := rfl

theorem run_of_not_running (h : m.state.isRunning = false) (n : Nat) : m.run n = (m, 0) := by
  cases n with
  | zero => rfl
  | succ n =>
    unfold run runFrom
    rw [step_of_not_running h]

theorem run_succ (h : m.state.isRunning = true) (n : Nat) :
    m.run (n + 1) = ((m.step.1.run n).1, (m.step.1.run n).2 + 1) := by
  obtain ⟨entry, hentry⟩ := Option.isSome_iff_exists.mp (step_isSome h)
  have hstep : m.step = (m.step.1, some entry) := Prod.ext rfl hentry
  have hrun : m.run (n + 1) = m.step.1.runFrom (0 + 1) n := by
    show m.runFrom 0 (n + 1) = _
    rw [runFrom, hstep]
  rw [hrun, runFrom_eq, Nat.zero_add, Nat.add_comm 1]

/-- Running on after a run is one longer run. -/
theorem run_add (m : Machine isa) (n k : Nat) :
    m.run (n + k) = (((m.run n).1.run k).1, (m.run n).2 + ((m.run n).1.run k).2) := by
  -- over the first of the two runs, which may end early
  induction n generalizing m with
  | zero => simp
  | succ n ih =>
    by_cases h : m.state.isRunning
    · rw [Nat.succ_add, run_succ h, run_succ h, ih m.step.1]
      simp [Nat.add_assoc, Nat.add_comm 1]
    · have hstopped : m.state.isRunning = false := by simpa using h
      simp [run_of_not_running hstopped]

/-- What every step preserves, a run preserves. -/
theorem run_induction {P : Machine isa → Prop} (hstep : ∀ m, P m → P m.step.1) (hm : P m)
    (n : Nat) : P (m.run n).1 := by
  induction n generalizing m with
  | zero => exact hm
  | succ n ih =>
    by_cases h : m.state.isRunning
    · rw [run_succ h]
      exact ih (hstep m hm)
    · rw [run_of_not_running (by simpa using h)]
      exact hm

/-- What two machines keep in common with every step, they keep in common with runs, which are of
one length if the run states are always the same. -/
theorem run_induction₂ {R : Machine isa → Machine isa → Prop}
    (hstate : ∀ m m', R m m' → m.state = m'.state)
    (hstep : ∀ m m', R m m' → R m.step.1 m'.step.1) {m m' : Machine isa} (h : R m m') (n : Nat) :
    R (m.run n).1 (m'.run n).1 ∧ (m.run n).2 = (m'.run n).2 := by
  induction n generalizing m m' with
  | zero => exact ⟨h, rfl⟩
  | succ n ih =>
    have heq := hstate m m' h
    by_cases hrunning : m.state.isRunning
    · obtain ⟨hrun, hcount⟩ := ih (hstep m m' h)
      rw [run_succ hrunning, run_succ (heq ▸ hrunning)]
      exact ⟨hrun, congrArg (· + 1) hcount⟩
    · have hstopped : m.state.isRunning = false := by simpa using hrunning
      rw [run_of_not_running hstopped, run_of_not_running (heq ▸ hstopped)]
      exact ⟨h, rfl⟩

end Octet.Machine
