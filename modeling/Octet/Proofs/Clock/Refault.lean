import Octet.Clock
import Octet.Proofs.Machine.Refault
import Octet.Proofs.Session.Action

/-!
# Single steps after a fault

A single step under a clock executes an instruction whatever state the machine is in, so after a fault
it is the faulting instruction that is executed, as the registers stand now. Several single steps in a
row are as many attempts (`singleSteps_eq`), and `singleSteps_after_fault` says which of them fault
again.
-/

namespace Octet.Clock

open Machine (OutOfRange StuckAt retry)

/-- The clock after `k` single steps in a row. -/
def singleSteps (c : Clock) (k : Nat) : Clock :=
  (fun c : Clock => c.singleStep.1)^[k] c

theorem singleStep_fst (c : Clock) :
    c.singleStep.1 = { c with
      session := { c.session with
        machine := c.session.machine.retry
        steps := c.session.steps + 1 }
      wait := none } := by
  have hentry : c.session.forceRunning.machine.step.2.isSome = true := Machine.step_isSome rfl
  show { c.stop.1 with session := c.session.forceRunning.step.1 } = _
  rw [Session.step_fst, if_pos hentry]
  rfl

/-- A single step executes the instruction at the program counter. -/
theorem singleStep_snd (c : Clock) :
    ∃ entry, c.singleStep.2 = some entry ∧ entry.pc = c.session.machine.pc := by
  have hentry : c.singleStep.2 = c.session.machine.forceRunning.step.2 :=
    Session.step_snd c.session.forceRunning
  exact ⟨_, hentry, rfl⟩

/-- Single steps in a row do to the machine what as many attempts do. -/
theorem singleSteps_eq (c : Clock) (k : Nat) :
    ∃ steps wait, c.singleSteps k = { c with
      session :=
        { config := c.session.config, machine := retry^[k] c.session.machine,
          program := c.session.program, steps }
      wait } := by
  induction k with
  | zero => exact ⟨_, _, rfl⟩
  | succ k ih =>
    obtain ⟨steps, wait, h⟩ := ih
    refine ⟨steps + 1, none, ?_⟩
    have hsucc : c.singleSteps (k + 1) = (c.singleSteps k).singleStep.1 :=
      Function.iterate_succ_apply' _ _ _
    have hretry : retry^[k + 1] c.session.machine = (retry^[k] c.session.machine).retry :=
      Function.iterate_succ_apply' _ _ _
    rw [hsucc, hretry, h, singleStep_fst]

/-- **Single steps after a fault.** After a fault the program counter still stands at the faulting
instruction, and a single step executes it again. Single steps in a row stay there, each with a fault
of the same kind, exactly as long as there is no instruction at all or each attempt leaves an address
register out of range. This is so for ever if the instruction writes again what it has written, but a
sum, a difference, a count or a register moved to where it has just been loaded from may come into
range; the single step that brings it there goes on behind the instruction. -/
theorem singleSteps_after_fault (c : Clock) (m : Machine c.session.config.isa)
    (hrunning : m.state = .running) (hc : c.session.machine = m.step.1) {fault : Fault}
    (hfault : m.step.1.state = .errored fault) (n : Nat) :
    let isa := c.session.config.isa
    let op := m.fetch.op
    let stopped := c.session.machine
    (∀ k, ∃ entry, (c.singleSteps k).singleStep.2 = some entry ∧
      entry.pc = (c.singleSteps k).session.machine.pc) ∧
    ((∀ k ≤ n, (c.singleSteps k).session.machine.StuckAt m.pc fault.code) ↔
      op = .unknown ∨ ∀ k ≤ n, OutOfRange isa (stopped.attempt op k)) ∧
    ((∀ v, stopped.again op v = v) →
      (c.singleSteps n).session.machine.StuckAt m.pc fault.code) ∧
    (op ≠ .unknown → (∀ k < n, OutOfRange isa (stopped.attempt op k)) →
      ¬ OutOfRange isa (stopped.attempt op n) →
      (c.singleSteps n).session.machine.pc = m.pc + m.fetch.size ∧
        (c.singleSteps n).session.machine.state = .running) := by
  intro isa op stopped
  have hstuck : ∀ k pc code, (c.singleSteps k).session.machine.StuckAt pc code ↔
      (retry^[k] m.step.1).StuckAt pc code := by
    intro k pc code
    obtain ⟨steps, wait, h⟩ := c.singleSteps_eq k
    rw [h, hc]
  have hstopped : stopped = m.step.1 := hc
  rw [hstopped]
  refine ⟨fun k => singleStep_snd _, ?_, ?_, ?_⟩
  · simp only [hstuck]
    exact (Machine.retry_of_fault hrunning hfault n).1
  · intro hagain
    rw [hstuck]
    exact Machine.retry_of_again hrunning hfault hagain n
  · obtain ⟨steps, wait, h⟩ := c.singleSteps_eq n
    rw [h, hc]
    exact (Machine.retry_of_fault hrunning hfault n).2

/-- `ADD A0, 100` faults with 100 in `A0` and then, time after time, with 200, 44, …, until twelve single
steps later the sum is 20. -/
theorem singleSteps_after_fault_sum :
    let m : Machine .cdc8512 := { instructions := Bank.zero.writeBytes 0 [0x90, 100] }
    let c := ofSession { config := {}, machine := m.step.1 }
    c.session.machine.state = .errored (.addressOutOfRange 0 0 100) ∧
      (∀ k ≤ 11, (c.singleSteps k).session.machine.StuckAt 0 3) ∧
      (c.singleSteps 12).session.machine.pc = 2 ∧
      (c.singleSteps 12).session.machine.state = .running := by
  intro m c
  have hfault : m.step.1.state = .errored (.addressOutOfRange 0 0 100) := by decide
  have hout : ∀ k ≤ 11, OutOfRange .cdc8512 (m.step.1.attempt m.fetch.op k) := by decide +kernel
  obtain ⟨_, hstuck, _, _⟩ := singleSteps_after_fault c m rfl rfl hfault 11
  obtain ⟨_, _, _, hgoes⟩ := singleSteps_after_fault c m rfl rfl hfault 12
  obtain ⟨hpc, hstate⟩ :=
    hgoes (by decide) (fun k hk => hout k (Nat.le_of_lt_succ hk)) (by decide +kernel)
  exact ⟨hfault, hstuck.mpr (.inr hout), hpc.trans (by decide), hstate⟩

/-- Faulting again is not for ever: `ADD A0, 128`, loaded and executed step by step, faults with 128 in
`A0` and at once goes on with 0. -/
theorem singleStep_leaves_fault :
    let c := (ofSession ((Session.ofConfig { trace := false }).act (.load "ADD A0, 128"))).singleStep.1
    c.session.machine.pc = 0 ∧
      c.session.machine.state = .errored (.addressOutOfRange 0 0 128) ∧
      c.singleStep.1.session.machine.pc = 2 ∧
      c.singleStep.1.session.machine.state = .running := by
  decide +kernel

end Octet.Clock
