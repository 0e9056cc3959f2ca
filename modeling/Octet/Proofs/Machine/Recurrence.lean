import Mathlib.Data.Fintype.BigOperators
import Mathlib.Data.Fintype.Pigeonhole
import Octet.Proofs.Machine.Log

/-!
# Machines that come back to a state

What a running machine does next is told by its instruction memory, which stays as it is, and by its
`Configuration`: data memory, registers, program counter and flags. There are finitely many of them.
A machine that runs for as many steps as there are configurations has been in one of them twice, and
then it runs forever (`running_forever`).
-/

namespace Octet

/-- A number for each state of the flags. -/
def Flags.number : Flags → Fin 16
  | .comparison .lt => 0
  | .comparison .eq => 1
  | .comparison .gt => 2
  | .status zero negative carry =>
    8 + (if zero then 4 else 0) + (if negative then 2 else 0) + (if carry then 1 else 0)

theorem Flags.number_injective : Function.Injective Flags.number := by
  intro flags flags' h
  cases flags with
  | comparison order =>
    cases flags' with
    | comparison order' => cases order <;> cases order' <;> first | rfl | cases h
    | status zero negative carry =>
      cases order <;> cases zero <;> cases negative <;> cases carry <;> cases h
  | status zero negative carry =>
    cases flags' with
    | comparison order =>
      cases order <;> cases zero <;> cases negative <;> cases carry <;> cases h
    | status zero' negative' carry' =>
      revert h
      revert zero negative carry zero' negative' carry'
      decide

namespace Machine

variable {isa : Isa} {m m' : Machine isa}

/-- Data memory, registers, program counter and flags. -/
abbrev Configuration :=
  (Fin 256 → Fin 256) × (Fin 8 → Fin 256) × Fin 256 × Fin 16

/-- The configuration that a machine is in. -/
def configuration (m : Machine isa) : Configuration :=
  (fun address => m.data.cells[address].toFin, fun r => m.registers.cells[r].toFin, m.pc.toFin,
    m.flags.number)

/-- Machines in one configuration are alike if they have the same instructions and run state. -/
theorem alike_of_configuration_eq (h : m.configuration = m'.configuration)
    (hinstructions : m.instructions = m'.instructions) (hstate : m.state = m'.state) :
    m.Alike m' := by
  obtain ⟨pc, ⟨registers⟩, flags, state, instructions, ⟨data⟩, trace, output⟩ := m
  obtain ⟨pc', ⟨registers'⟩, flags', state', instructions', ⟨data'⟩, trace', output'⟩ := m'
  simp only [configuration, Prod.mk.injEq] at h
  obtain ⟨hdata, hregisters, hpc, hflags⟩ := h
  have hdata : data = data' := by
    ext address hlt
    have hcell := congrFun hdata ⟨address, hlt⟩
    simpa [UInt8.toFin_inj, UInt8.toNat_inj] using hcell
  have hregisters : registers = registers' := by
    ext r hlt
    have hcell := congrFun hregisters ⟨r, hlt⟩
    simpa [UInt8.toFin_inj, UInt8.toNat_inj] using hcell
  obtain rfl := UInt8.toFin_inj.mp hpc
  obtain rfl := Flags.number_injective hflags
  refine ⟨trace, output, ?_⟩
  simp only at hinstructions hstate
  rw [hdata, hregisters, hinstructions, hstate]
  rfl

theorem run_instructions (m : Machine isa) (n : Nat) :
    (m.run n).1.instructions = m.instructions :=
  run_induction (P := fun after => after.instructions = m.instructions)
    (fun _ h => step_instructions.trans h) rfl n

/-- A machine that is running after a number of steps has been running after fewer ones. -/
theorem running_of_le {n k : Nat} (hle : k ≤ n) (h : (m.run n).1.state.isRunning = true) :
    (m.run k).1.state.isRunning = true := by
  obtain ⟨more, rfl⟩ := Nat.le.dest hle
  cases hrunning : (m.run k).1.state.isRunning with
  | true => rfl
  | false =>
    rw [run_add, run_of_not_running hrunning, hrunning] at h
    exact h

theorem eq_running_of_isRunning {state : RunState} (h : state.isRunning = true) :
    state = .running := by
  cases state with
  | running => rfl
  | halted | errored => cases h

/-- Among the first states of a machine that keeps running, two differ in their logs only. -/
theorem exists_alike {bound : Nat} (hbound : Fintype.card Configuration ≤ bound)
    (h : (m.run bound).1.state.isRunning = true) :
    ∃ first second, first < second ∧ second ≤ bound ∧
      (m.run first).1.Alike (m.run second).1 := by
  -- one state more than there are configurations
  let visited : Fin (bound + 1) → Configuration := fun k => (m.run k).1.configuration
  have hcard : Fintype.card Configuration < Fintype.card (Fin (bound + 1)) := by
    rw [Fintype.card_fin]
    exact Nat.lt_succ_of_le hbound
  have halike : ∀ i j, visited i = visited j → (m.run i).1.Alike (m.run j).1 := by
    intro i j hij
    have hi := eq_running_of_isRunning (running_of_le (Nat.le_of_lt_succ i.isLt) h)
    have hj := eq_running_of_isRunning (running_of_le (Nat.le_of_lt_succ j.isLt) h)
    exact alike_of_configuration_eq hij
      ((run_instructions m i).trans (run_instructions m j).symm) (hi.trans hj.symm)
  obtain ⟨i, j, hne, hvisited⟩ := Fintype.exists_ne_map_eq_of_card_lt visited hcard
  rcases Nat.lt_or_gt_of_ne (Fin.val_ne_of_ne hne) with hlt | hlt
  · exact ⟨i, j, hlt, Nat.le_of_lt_succ j.isLt, halike i j hvisited⟩
  · exact ⟨j, i, hlt, Nat.le_of_lt_succ i.isLt, halike j i hvisited.symm⟩

/-- A machine that runs for as many steps as there are configurations runs forever. -/
theorem running_forever {bound : Nat} (hbound : Fintype.card Configuration ≤ bound)
    (h : (m.run bound).1.state.isRunning = true) (n : Nat) :
    (m.run n).1.state.isRunning = true := by
  obtain ⟨first, second, hlt, hle, halike⟩ := exists_alike hbound h
  induction n using Nat.strongRecOn with
  | _ n ih =>
    by_cases hn : n ≤ second
    · exact running_of_le (Nat.le_trans hn hle) h
    · -- a run beyond the second visit goes on as the shorter one does from the first
      obtain ⟨more, rfl⟩ := Nat.le.dest (Nat.le_of_not_le hn)
      have hearlier := ih (first + more) (Nat.add_lt_add_right hlt more)
      rw [run_add] at hearlier ⊢
      rw [← (halike.run more).1.state_eq]
      exact hearlier

end Machine

end Octet
