import Octet.Proofs.Machine.AddressRange
import Octet.Proofs.Session.Action

/-!
# Sessions with their addresses in range

A session that has never been made to go on after a fault is `Unforced`: it was started afresh, and
only plain actions and snapshots of other such sessions have changed it. Its machine is guarded, so
on the CDC8512 all address registers are below 32 unless the machine has faulted.

The main statement is `addresses_below_limit`.
-/

namespace Octet.Session

open Machine (Guarded InRange)

/-- The sessions that come of a fresh start by plain actions and by restoring snapshots of each
other. -/
inductive Unforced : Session → Prop where
  | start (config : Config) : Unforced (ofConfig config)
  | plain {s : Session} (hs : Unforced s) (action : Action) (hplain : action.isPlain = true) :
      Unforced (s.act action)
  | restore {s t : Session} (hs : Unforced s) (ht : Unforced t) :
      Unforced (s.act (.restore t.snapshot))

theorem kept_guarded : Kept fun _ m => m.Guarded where
  reset m instructions data := Guarded.reset m instructions data
  step h := h.step
  resume h := h.resume
  write r v _ := Guarded.hostWriteRegister _ r v
  edit _ _ h := h

/-- A restored machine has the registers and the run state of the one that was saved. -/
theorem guarded_restore {s t : Session} (hs : s.machine.Guarded) (ht : t.machine.Guarded) :
    (s.act (.restore t.snapshot)).machine.Guarded := by
  simp only [act]
  split
  · next restored hrestore =>
    obtain ⟨hisa, instructions, data, _, _, rfl⟩ := restore_eq_ok.mp hrestore
    obtain ⟨⟨isa, _, _, _, _⟩, machine, _, _⟩ := s
    obtain ⟨⟨isa', _, _, _, _⟩, machine', _, _⟩ := t
    obtain rfl : isa' = isa := hisa
    exact ht
  · exact hs

theorem Unforced.guarded {s : Session} (h : s.Unforced) : s.machine.Guarded := by
  induction h with
  | start config => exact Guarded.reset (ofConfig config).machine .zero .zero
  | plain _ action hplain ih => exact kept_guarded.act ih action hplain
  | restore _ _ ihs iht => exact guarded_restore ihs iht

theorem inRange_cdc8512 {m : Machine .cdc8512} (h : m.InRange) (r : Reg) (hr : r < 4) :
    m.registers.read r < 32 := by
  apply h 32 rfl r
  rw [addressRegisters_cdc8512]
  have hlt : r.toNat < 4 := hr
  grind

/-- On the CDC8512 the registers `A0` … `A3` are below 32 in every session that was never made to go
on after a fault, as long as it is running or halted. And whatever the registers were, a step that
writes one of them and does not fault leaves the four below 32. -/
theorem addresses_below_limit :
    (∀ s : Session, s.Unforced → s.config.isa = .cdc8512 →
      s.machine.state = .running ∨ s.machine.state = .halted →
      ∀ r : Reg, r < 4 → s.machine.registers.read r < 32) ∧
    (∀ m : Machine .cdc8512, m.state = .running → m.fetch.op.written?.isSome →
      (∀ fault, m.step.1.state ≠ .errored fault) →
      ∀ r : Reg, r < 4 → m.step.1.registers.read r < 32) := by
  constructor
  · intro s hs hisa hstate
    have hguarded := hs.guarded
    obtain ⟨⟨isa, _, _, _, _⟩, machine, _, _⟩ := s
    obtain rfl : isa = .cdc8512 := hisa
    have hrange : machine.InRange := by
      apply hguarded
      intro fault hfault
      rcases hstate with hrunning | hhalted
      · cases hrunning.symm.trans hfault
      · cases hhalted.symm.trans hfault
    exact inRange_cdc8512 hrange
  · intro m hrunning hwritten hnofault
    have hrunning' : m.state.isRunning = true := by rw [hrunning]; rfl
    rcases Machine.step_inRange_or_fault hrunning' (.inr hwritten) with ⟨fault, hfault⟩ | hrange
    · exact absurd hfault (hnofault fault)
    · exact inRange_cdc8512 hrange

/-- A session restored from one that has halted with `A1` at 31, and an instruction `ZERO A1` that
finds `A1` out of range. -/
theorem addresses_below_limit_restored :
    let t := ((ofConfig {}).act (.writeRegister "A1".toList 31)).act .step
    let s := (ofConfig { trace := false }).act (.restore t.snapshot)
    let m : Machine .cdc8512 :=
      { registers := RegisterFile.zero.write 1 200, instructions := Bank.zero.write 0 0x41 }
    s.machine.registers.read 1 = 31 ∧ (∀ r : Reg, r < 4 → s.machine.registers.read r < 32) ∧
      m.registers.read 1 = 200 ∧ ∀ r : Reg, r < 4 → m.step.1.registers.read r < 32 := by
  intro t s m
  have ht : t.Unforced := ((Unforced.start _).plain _ rfl).plain _ rfl
  have hs : s.Unforced := (Unforced.start _).restore ht
  have hhalted : s.machine.state = .halted := by decide +kernel
  have hnofault : m.step.1.state = .running := by decide
  have hisa : s.config.isa = .cdc8512 := by rw [act_config]; rfl
  have hbelow := addresses_below_limit.1 s hs hisa (.inr hhalted)
  have hstep := addresses_below_limit.2 m rfl (by decide) (by
    intro fault hfault
    cases hnofault.symm.trans hfault)
  exact ⟨by decide +kernel, hbelow, by decide, hstep⟩

/-- The four registers by name. -/
example : ([0, 1, 2, 3] : List Reg).map Isa.cdc8512.layout.name = ["A0", "A1", "A2", "A3"] := by
  decide

end Octet.Session
