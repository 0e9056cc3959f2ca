import Octet.Proofs.Machine.Run

/-!
# Address registers in range

Every instruction that writes a register looks at all address registers afterwards, whichever it
wrote, and faults if one of them is not below the limit. So a step that writes a register and does
not fault leaves all of them in range, wherever they stood before (`step_inRange_or_fault`).

A machine is `Guarded` if an address register out of range has stopped it with a fault. Steps keep
this, and so does everything from outside that does not take a fault away.
-/

namespace Octet

/-- The register that an operation writes, if it writes one. -/
def Op.written? : Op → Option Reg
  | .load dst _ => some dst
  | .clear r => some r
  | .add dst _ => some dst
  | .sub dst _ => some dst
  | .inc r => some r
  | .dec r => some r
  | .transfer dst _ => some dst
  | .halt => none
  | .nop => none
  | .store .. => none
  | .compare .. => none
  | .jump .. => none
  | .branch .. => none
  | .unknown => none

theorem addressRegisters_cdc8512 : Isa.cdc8512.layout.addressRegisters = [0, 1, 2, 3] := by
  decide

namespace Machine

variable {isa : Isa} {m : Machine isa} {i : Instruction}

/-- All address registers are below the limit, if there is one. -/
def InRange (m : Machine isa) : Prop :=
  ∀ limit, isa.layout.addressLimit = some limit →
    ∀ r ∈ isa.layout.addressRegisters, m.registers.read r < limit

/-- A machine with an address register out of range has been stopped by a fault. -/
def Guarded (m : Machine isa) : Prop :=
  (∀ fault, m.state ≠ .errored fault) → m.InRange

theorem rangeFault?_eq_none_iff {pc : UInt8} : m.rangeFault? pc = none ↔ m.InRange := by
  unfold rangeFault? InRange
  cases isa.layout.addressLimit with
  | none => simp
  | some limit => simp [List.find?_eq_none]

theorem writeRegister_inRange {r : Reg} {v pc : UInt8} (h : (m.writeRegister r v pc).2 = none) :
    (m.writeRegister r v pc).1.InRange :=
  rangeFault?_eq_none_iff.mp h

/-! ## Steps -/

theorem writeBack_inRange_or_fault (m : Machine isa) (r : Reg) (v : UInt8) :
    (∃ fault, (m.writeBack r v).2 = .fault fault) ∨ (m.writeBack r v).1.InRange := by
  unfold writeBack
  split
  · next after h =>
    have hrange := writeRegister_inRange (congrArg Prod.snd h)
    rw [h] at hrange
    exact .inr hrange
  · next after fault h => exact .inl ⟨fault, rfl⟩

/-- An instruction that writes no register changes none. -/
theorem execute_registers (h : i.op.written? = none) : (m.execute i).1.registers = m.registers := by
  unfold execute
  cases hop : i.op with
  | load | clear | add | sub | inc | dec | transfer =>
    rw [hop] at h
    cases h
  | _ => rfl

theorem execute_inRange_or_fault (h : m.InRange ∨ i.op.written?.isSome) :
    (∃ fault, (m.execute i).2 = .fault fault) ∨ (m.execute i).1.InRange := by
  cases hwritten : i.op.written? with
  | none =>
    -- nothing is written, so the registers stood in range before
    rw [hwritten] at h
    have hrange : m.InRange := by simpa using h
    right
    unfold InRange
    rw [execute_registers hwritten]
    exact hrange
  | some r =>
    unfold execute
    cases hop : i.op with
    | load | clear | add | sub | inc | dec | transfer => exact writeBack_inRange_or_fault _ _ _
    | _ =>
      rw [hop] at hwritten
      cases hwritten

theorem follow_registers {flow : Flow} : (m.follow i flow).registers = m.registers := by
  cases flow <;> rfl

/-- A step that writes a register, or that finds all address registers in range, faults or leaves
them all in range. -/
theorem step_inRange_or_fault (hrunning : m.state.isRunning = true)
    (h : m.InRange ∨ m.fetch.op.written?.isSome) :
    (∃ fault, m.step.1.state = .errored fault) ∨ m.step.1.InRange := by
  obtain ⟨trace, hstep⟩ := step_eq hrunning
  rw [hstep]
  rcases execute_inRange_or_fault h with ⟨fault, hfault⟩ | hrange
  · rw [hfault]
    exact .inl ⟨fault, rfl⟩
  · right
    unfold InRange at hrange ⊢
    show ∀ limit, isa.layout.addressLimit = some limit → ∀ r ∈ isa.layout.addressRegisters,
      (((m.execute m.fetch).1.follow m.fetch (m.execute m.fetch).2).registers.read r) < limit
    rw [follow_registers]
    exact hrange

/-! ## What keeps machines guarded -/

namespace Guarded

theorem step (h : m.Guarded) : m.step.1.Guarded := by
  by_cases hrunning : m.state.isRunning
  · intro hstate
    have hbefore : m.InRange := by
      apply h
      intro fault hfault
      rw [hfault] at hrunning
      cases hrunning
    rcases step_inRange_or_fault hrunning (.inl hbefore) with ⟨fault, hfault⟩ | hrange
    · exact absurd hfault (hstate fault)
    · exact hrange
  · rw [step_of_not_running (by simpa using hrunning)]
    exact h

/-- Zeros are in range. -/
theorem reset (m : Machine isa) (instructions data : Bank) :
    ({ m.reset with instructions, data } : Machine isa).Guarded := by
  intro _ limit hlimit r _
  show RegisterFile.zero.read r < limit
  rw [RegisterFile.read_zero]
  cases isa with
  | cdc8512 =>
    obtain rfl : (32 : UInt8) = limit := Option.some.inj hlimit
    decide
  | cdc6504 => cases hlimit

/-- Going on after a halt takes no fault away. -/
theorem resume (h : m.Guarded) : m.resume.Guarded := by
  unfold Machine.resume
  cases hstate : m.state with
  | halted =>
    intro _
    apply h
    intro fault hfault
    cases hstate.symm.trans hfault
  | running | errored => exact h

/-- A write from outside either faults or leaves all address registers in range. -/
theorem hostWriteRegister (m : Machine isa) (r : Reg) (v : UInt8) :
    (m.hostWriteRegister r v).1.Guarded := by
  rw [hostWriteRegister_eq]
  cases hfault : (m.writeRegister r v m.pc).2 with
  | none => exact fun _ => writeRegister_inRange hfault
  | some fault =>
    intro hstate
    exact absurd rfl (hstate fault)

end Guarded

end Machine

end Octet
