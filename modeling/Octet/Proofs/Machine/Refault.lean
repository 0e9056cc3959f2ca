import Mathlib.Logic.Function.Iterate
import Octet.Proofs.Machine.Effect

/-!
# Executing a faulting instruction again

A machine that is made to go on after a fault executes the faulting instruction once more. What it
finds are the registers as the instruction has left them, so a sum is added to, and a register that
has been loaded in the meantime is read. Whether there is a fault again depends on the address
registers that come of it: `again` says how one further execution changes the register written, and
`attempt` how several do.

* `retry_of_unknown` — what is no instruction faults for ever.
* `Cdc8512.retry_of_written` — the run of an instruction that writes a register.
* `retry_of_fault` — which attempts fault again, and where the first one that does not goes on.
-/

namespace Octet

namespace Machine

variable {isa : Isa} {m m' : Machine isa} {r : Reg} {v : UInt8} {op : Op}

/-- Executes one instruction, whatever state the machine is in. -/
def retry (m : Machine isa) : Machine isa :=
  m.forceRunning.step.1

/-- The machine has been stopped at an address by a fault with this number, which tells the kind. -/
def StuckAt (m : Machine isa) (pc code : UInt8) : Prop :=
  m.pc = pc ∧ ∃ fault, m.state = .errored fault ∧ fault.pc = pc ∧ fault.code = code

/-- With these values an address register is out of range. -/
def OutOfRange (isa : Isa) (value : Reg → UInt8) : Prop :=
  ∃ limit ∈ isa.layout.addressLimit, ∃ r ∈ isa.layout.addressRegisters, limit ≤ value r

instance (isa : Isa) (value : Reg → UInt8) : Decidable (OutOfRange isa value) :=
  decidable_of_iff (isa.layout.addressLimit.any fun limit =>
    isa.layout.addressRegisters.any fun r => limit ≤ value r) (by
      unfold OutOfRange
      cases isa.layout.addressLimit <;> simp)

/-- What an operation that has written a value to an address register writes to it if it is executed
again. -/
def again (m : Machine isa) (op : Op) (v : UInt8) : UInt8 :=
  match op with
  | .add _ src => v + m.operand src
  | .sub _ src => v - m.operand src
  | .inc _ => v + 1
  | .dec _ => v - 1
  -- the source has been loaded by the register that it is moved to
  | .transfer dst src => if isa.layout.role dst = .load src then m.data.read v else v
  | _ => v

/-- The value of an address register after an operation has been executed `k` more times. -/
def attempt (m : Machine isa) (op : Op) (k : Nat) (r : Reg) : UInt8 :=
  if op.written? = some r then (m.again op)^[k] (m.registers.read r) else m.registers.read r

theorem outOfRange_iff : OutOfRange isa m.registers.read ↔ ¬ m.InRange := by
  unfold OutOfRange InRange
  simp only [Option.mem_def, not_forall, UInt8.not_lt, exists_prop]

/-- Where nothing changes when it is written again, no attempt changes anything. -/
theorem attempt_of_again (h : ∀ v, m.again op v = v) (k : Nat) :
    m.attempt op k = m.registers.read := by
  funext r
  unfold attempt
  split
  · exact Function.iterate_fixed (h _) k
  · rfl

theorem OutOfRange.congr {value value' : Reg → UInt8}
    (h : ∀ r ∈ isa.layout.addressRegisters, value r = value' r) :
    OutOfRange isa value ↔ OutOfRange isa value' := by
  unfold OutOfRange
  refine exists_congr fun limit => and_congr_right fun _ => exists_congr fun r => ?_
  refine and_congr_right fun hr => ?_
  rw [h r hr]

/-! ## One step -/

/-- What is written back either leaves all address registers in range or faults. -/
theorem writeBack_cases (m : Machine isa) (r : Reg) (v : UInt8) :
    (m.writeBack r v).1.InRange ∧ (m.writeBack r v).2 = .next ∨
      ¬ (m.writeBack r v).1.InRange ∧
        ∃ q value, (m.writeBack r v).2 = .fault (.addressOutOfRange m.pc q value) := by
  have hfault : (m.writeRegister r v m.pc).2 = (m.writeRegister r v m.pc).1.rangeFault? m.pc := rfl
  unfold writeBack
  split
  · next after h =>
    rw [h] at hfault
    exact .inl ⟨rangeFault?_eq_none_iff.mp hfault.symm, rfl⟩
  · next after fault h =>
    rw [h] at hfault
    obtain ⟨_, q, value, _, _, rfl⟩ := rangeFault?_eq_some hfault.symm
    refine .inr ⟨?_, q, value, rfl⟩
    intro hrange
    cases hfault.trans (rangeFault?_eq_none_iff.mpr hrange)

/-- An instruction that writes a register faults if that leaves an address register out of range, and
is left behind if not. -/
theorem step_of_written (hrunning : m.state = .running) (h : m.outcome? m.fetch.op = some (r, v)) :
    m.step.1.InRange ∧ m.step.1.pc = m.pc + m.fetch.size ∧ m.step.1.state = .running ∨
      ¬ m.step.1.InRange ∧ m.step.1.pc = m.pc ∧
        ∃ q value, m.step.1.state = .errored (.addressOutOfRange m.pc q value) := by
  have hcontrol := execute_sameControl m m.fetch
  have hrange : m.step.1.InRange ↔ (m.execute m.fetch).1.InRange := by
    unfold InRange
    rw [(step_contents hrunning).1]
  obtain ⟨trace, hstep⟩ := step_eq (m := m) (by rw [hrunning]; rfl)
  rw [hrange, hstep]
  rcases writeBack_cases { m with flags := m.carried m.fetch.op } r v with
    ⟨hwritten, hflow⟩ | ⟨hwritten, q, value, hflow⟩
  · rw [← execute_eq_writeBack h] at hwritten hflow
    rw [hflow]
    exact .inl ⟨hwritten, congrArg (· + m.fetch.size) hcontrol.pc, hcontrol.state.trans hrunning⟩
  · rw [← execute_eq_writeBack h] at hwritten hflow
    rw [hflow]
    exact .inr ⟨hwritten, hcontrol.pc, q, value, rfl⟩

/-! ## Retrying -/

theorem fetch_forceRunning (hpc : m'.pc = m.pc) (hprogram : m'.instructions = m.instructions) :
    m'.forceRunning.fetch = m.fetch := by
  unfold fetch
  show isa.decode (m'.instructions.read m'.pc) (m'.instructions.read (m'.pc + 1)) = _
  rw [hpc, hprogram]

theorem step_of_unknown (hrunning : m.state = .running) (h : m.fetch.op = .unknown) :
    m.step.1.pc = m.pc ∧ m.step.1.state = .errored (.invalidOpcode m.pc m.fetch.raw) := by
  obtain ⟨trace, hstep⟩ := step_eq (m := m) (by rw [hrunning]; rfl)
  have hexecute : m.execute m.fetch = (m, .fault (.invalidOpcode m.pc m.fetch.raw)) := by
    unfold execute
    rw [h]
  rw [hstep, hexecute]
  exact ⟨rfl, rfl⟩

/-- What is no instruction faults for ever. -/
theorem retry_of_unknown (hrunning : m.state = .running) (h : m.fetch.op = .unknown) (k : Nat) :
    (retry^[k] m.step.1).pc = m.pc ∧ (retry^[k] m.step.1).instructions = m.instructions ∧
      (retry^[k] m.step.1).state = .errored (.invalidOpcode m.pc m.fetch.raw) := by
  induction k with
  | zero =>
    obtain ⟨hpc, hstate⟩ := step_of_unknown hrunning h
    exact ⟨hpc, step_instructions, hstate⟩
  | succ k ih =>
    obtain ⟨hpc, hprogram, _⟩ := ih
    have hfetch := fetch_forceRunning hpc hprogram
    rw [Function.iterate_succ_apply']
    obtain ⟨hpc', hstate'⟩ := step_of_unknown (m := (retry^[k] m.step.1).forceRunning) rfl
      (by rw [hfetch]; exact h)
    rw [hfetch] at hstate'
    refine ⟨hpc'.trans hpc, step_instructions.trans hprogram, ?_⟩
    rw [← hpc]
    exact hstate'

end Machine

/-! ## Address registers written again -/

namespace Cdc8512

open Machine (OutOfRange retry)

variable {m m' m₀ : Machine .cdc8512} {op : Op} {r : Reg} {v : UInt8} {k : Nat}

theorem addressRegister_lt (hr : r ∈ Isa.cdc8512.layout.addressRegisters) : r < 4 := by
  rw [addressRegisters_cdc8512] at hr
  simp only [List.mem_cons, List.not_mem_nil, or_false] at hr
  rcases hr with rfl | rfl | rfl | rfl <;> decide

theorem lt_eight {r : Reg} (hr : r < 4) : r < 8 :=
  UInt8.lt_trans hr (by decide)

/-- The pair of an address register is none itself. -/
theorem ne_add_four {q : Reg} (hq : q < 4) (hr : r < 4) : q ≠ r + 4 := by
  have hfour : (4 : UInt8).toNat = 4 := rfl
  rw [UInt8.lt_iff_toNat_lt] at hq hr
  rw [ne_eq, ← UInt8.toNat_inj, UInt8.toNat_add]
  omega

/-- What loads a pair is `A0` or `A1`. -/
theorem load_of_role (hr : r < 8) {paired : Reg} (h : layout.role r = .load paired) :
    (r = 0 ∨ r = 1) ∧ paired = r + 4 := by
  rw [role_eq hr] at h
  split at h
  · next hload => exact ⟨hload, (Role.load.inj h).symm⟩
  · split at h <;> cases h

theorem not_store_of_load (h : r = 0 ∨ r = 1) : ¬ (r = 2 ∨ r = 3) := by
  rcases h with rfl | rfl <;> decide

/-- An operation that has written an address register and is executed again writes what `again` says,
and what that says is as before. -/
theorem outcome?_again (hop : Executes op) (h : m.outcome? op = some (r, v)) (hr : r < 4)
    (hwrites : Writes r v m m') :
    m'.outcome? op = some (r, m.again op v) ∧ m'.again op = m.again op := by
  cases hop with
  | load hr' b | clear hr' =>
    obtain ⟨rfl, rfl⟩ := Prod.mk.inj (Option.some.inj h)
    exact ⟨rfl, rfl⟩
  | add hr' b =>
    obtain ⟨rfl, _⟩ := Prod.mk.inj (Option.some.inj h)
    refine ⟨?_, rfl⟩
    rw [Machine.outcome?, hwrites.value, UInt8.ofNat_add, UInt8.ofNat_toNat, UInt8.ofNat_toNat]
    rfl
  | sub hr' b =>
    obtain ⟨rfl, _⟩ := Prod.mk.inj (Option.some.inj h)
    refine ⟨?_, rfl⟩
    rw [Machine.outcome?, hwrites.value, ofNat_sub_toNat]
    rfl
  | inc hr' =>
    obtain ⟨rfl, _⟩ := Prod.mk.inj (Option.some.inj h)
    refine ⟨?_, rfl⟩
    rw [Machine.outcome?, hwrites.value, UInt8.ofNat_add, UInt8.ofNat_toNat]
    rfl
  | dec hr' =>
    obtain ⟨rfl, _⟩ := Prod.mk.inj (Option.some.inj h)
    refine ⟨?_, rfl⟩
    rw [Machine.outcome?, hwrites.value, show (1 : Nat) = (1 : UInt8).toNat from rfl,
      ofNat_sub_toNat]
    rfl
  | @transfer dst src hdst hsrc =>
    obtain ⟨rfl, rfl⟩ := Prod.mk.inj (Option.some.inj h)
    by_cases hrole : Isa.cdc8512.layout.role dst = .load src
    · obtain ⟨hload, rfl⟩ := load_of_role hdst hrole
      refine ⟨?_, funext fun u => ?_⟩
      · rw [Machine.outcome?, hwrites.loaded hload, Machine.again, if_pos hrole]
      · simp only [Machine.again, if_pos hrole]
        exact hwrites.data u fun hstore => absurd hstore (not_store_of_load hload)
    · have hread : m'.registers.read src = m.registers.read src := by
        by_cases hsame : src = dst
        · rw [hsame]
          rw [hsame] at hwrites
          exact hwrites.value
        · apply hwrites.registers src hsrc hsame
          rintro hload rfl
          apply hrole
          show layout.role dst = .load (dst + 4)
          rw [role_eq hdst, if_pos hload]
      refine ⟨?_, ?_⟩
      · rw [Machine.outcome?, hread, Machine.again, if_neg hrole]
      · funext u
        simp only [Machine.again, if_neg hrole]
  | addData hdst src | subData hdst src =>
    obtain ⟨rfl, _⟩ := Prod.mk.inj (Option.some.inj h)
    exact absurd hr (UInt8.not_lt.mpr hdst.1)
  | halt | nop | compare | jump | unknown => cases h

/-- A machine after an operation that writes the register `r` has been executed `k` more times. -/
structure Retried (m₀ : Machine .cdc8512) (op : Op) (r : Reg) (k : Nat) (m : Machine .cdc8512) :
    Prop where
  read : ∀ q < 4, m.registers.read q = m₀.attempt op k q
  outcome : r < 4 → m.outcome? op = some (r, m₀.again op (m.registers.read r))
  again : r < 4 → m.again op = m₀.again op

theorem Retried.zero (hop : Executes op) (h : m.outcome? op = some (r, v))
    (hwrites : Writes r v m m') : Retried m' op r 0 m' := by
  refine ⟨?_, ?_, fun _ => rfl⟩
  · intro q _
    simp [Machine.attempt]
  · intro hr
    obtain ⟨houtcome, hagain⟩ := outcome?_again hop h hr hwrites
    rw [houtcome, hagain, hwrites.value]

theorem Retried.succ (hop : Executes op) (hwritten : op.written? = some r)
    (h : m.outcome? op = some (r, v)) (hwrites : Writes r v m m')
    (hretried : Retried m₀ op r k m) : Retried m₀ op r (k + 1) m' := by
  refine ⟨?_, ?_, ?_⟩
  · intro q hq
    have hbefore := hretried.read q hq
    by_cases hqr : q = r
    · subst hqr
      have hv := (hretried.outcome hq).symm.trans h
      rw [Machine.attempt, if_pos hwritten] at hbefore ⊢
      rw [Function.iterate_succ_apply', ← hbefore, hwrites.value]
      exact (Prod.mk.inj (Option.some.inj hv)).2.symm
    · have hne : op.written? ≠ some q := by
        rw [hwritten]
        exact fun heq => hqr (Option.some.inj heq).symm
      rw [Machine.attempt, if_neg hne] at hbefore ⊢
      rw [← hbefore]
      apply hwrites.registers q (lt_eight hq) hqr
      intro hload
      exact ne_add_four hq (by rcases hload with rfl | rfl <;> decide)
  · intro hr
    obtain ⟨houtcome, _⟩ := outcome?_again hop h hr hwrites
    rw [houtcome, hretried.again hr, hwrites.value]
  · intro hr
    obtain ⟨_, hagain⟩ := outcome?_again hop h hr hwrites
    rw [hagain, hretried.again hr]

/-- The run state does not matter. -/
theorem Retried.forceRunning (h : Retried m₀ op r k m) : Retried m₀ op r k m.forceRunning :=
  ⟨h.read, h.outcome, h.again⟩

theorem Retried.outOfRange_iff (h : Retried m₀ op r k m) :
    OutOfRange .cdc8512 (m₀.attempt op k) ↔ ¬ m.InRange := by
  rw [← Machine.outOfRange_iff]
  apply OutOfRange.congr
  intro q hq
  exact (h.read q (addressRegister_lt hq)).symm

/-- **Retrying an instruction that writes a register.** As long as every attempt has left an address
register out of range, the next attempt is on the same instruction. It faults again if it leaves an
address register out of range, and goes on behind the instruction if not. -/
theorem retry_of_written (hrunning : m.state = .running) (hwritten : m.fetch.op.written? = some r)
    (k : Nat) (hbefore : ∀ j < k, OutOfRange .cdc8512 (m.step.1.attempt m.fetch.op j)) :
    let after := retry^[k] m.step.1
    Retried m.step.1 m.fetch.op r k after ∧ after.instructions = m.instructions ∧
      (after.InRange ∧ after.pc = m.pc + m.fetch.size ∧ after.state = .running ∨
        ¬ after.InRange ∧ after.pc = m.pc ∧
          ∃ q value, after.state = .errored (.addressOutOfRange m.pc q value)) := by
  intro after
  have hop : Executes m.fetch.op := executes_decode _ _
  induction k with
  | zero =>
    obtain ⟨v, h⟩ := Machine.exists_outcome? m hwritten
    exact ⟨.zero hop h (writes_step hrunning h), Machine.step_instructions,
      Machine.step_of_written hrunning h⟩
  | succ k ih =>
    obtain ⟨hretried, hprogram, hcases⟩ := ih fun j hj => hbefore j (Nat.lt_succ_of_lt hj)
    have hout := hretried.outOfRange_iff.mp (hbefore k (Nat.lt_succ_self k))
    obtain ⟨hrange, _⟩ | ⟨_, hpc, _⟩ := hcases
    · exact absurd hrange hout
    have hfetch := Machine.fetch_forceRunning hpc hprogram
    -- the attempt is a step of the machine made to run again
    obtain ⟨v, h⟩ := Machine.exists_outcome? (retry^[k] m.step.1).forceRunning hwritten
    have hafter : after = (retry^[k] m.step.1).forceRunning.step.1 :=
      Function.iterate_succ_apply' _ _ _
    rw [hafter]
    rw [← hfetch] at h
    have hwrites := writes_step rfl h
    have hstep := Machine.step_of_written rfl h
    rw [hfetch] at h hstep
    refine ⟨hretried.forceRunning.succ hop hwritten h hwrites, Machine.step_instructions.trans hprogram, ?_⟩
    rw [← hpc]
    exact hstep

end Cdc8512

/-! ## After any fault -/

namespace Machine

variable {isa : Isa} {m : Machine isa} {fault : Fault}

theorem execute_flow_of_silent {i : Instruction} (h : i.op.written? = none)
    (hknown : i.op ≠ .unknown) (fault : Fault) : (m.execute i).2 ≠ .fault fault := by
  unfold execute
  cases hop : i.op with
  | halt | nop | store | compare => exact nofun
  | jump condition target | branch condition target =>
    simp only
    split <;> exact nofun
  | load | clear | add | sub | inc | dec | transfer =>
    rw [hop] at h
    cases h
  | unknown => exact absurd hop hknown

/-- What faults is no instruction, or it writes a register. -/
theorem written?_of_fault (hrunning : m.state = .running)
    (hfault : m.step.1.state = .errored fault) :
    m.fetch.op = .unknown ∨ ∃ r, m.fetch.op.written? = some r := by
  cases hwritten : m.fetch.op.written? with
  | some r => exact .inr ⟨r, rfl⟩
  | none =>
    left
    by_contra hknown
    obtain ⟨trace, hstep⟩ := step_eq (m := m) (by rw [hrunning]; rfl)
    rw [hstep] at hfault
    have hstate := (execute_sameControl m m.fetch).state.trans hrunning
    cases hflow : (m.execute m.fetch).2 with
    | fault other => exact execute_flow_of_silent hwritten hknown other hflow
    | halt =>
      rw [hflow] at hfault
      cases hfault
    | next | jump =>
      rw [hflow] at hfault
      cases hstate.symm.trans hfault

/-- The two kinds of faults, and what they come of. -/
theorem fault_cases (hrunning : m.state = .running) (hfault : m.step.1.state = .errored fault) :
    m.fetch.op = .unknown ∧ fault = .invalidOpcode m.pc m.fetch.raw ∨
      (∃ r, m.fetch.op.written? = some r) ∧ ¬ m.step.1.InRange ∧
        ∃ q value, fault = .addressOutOfRange m.pc q value := by
  rcases written?_of_fault hrunning hfault with hop | ⟨r, hwritten⟩
  · obtain ⟨_, hstate⟩ := step_of_unknown hrunning hop
    exact .inl ⟨hop, RunState.errored.inj (hfault.symm.trans hstate)⟩
  · obtain ⟨v, h⟩ := exists_outcome? m hwritten
    obtain ⟨_, _, hstate⟩ | ⟨hrange, _, q, value, hstate⟩ := step_of_written hrunning h
    · cases hstate.symm.trans hfault
    · exact .inr ⟨⟨r, hwritten⟩, hrange, q, value, RunState.errored.inj (hfault.symm.trans hstate)⟩

/-- An instruction that has faulted faults again exactly as long as its attempts leave an address
register out of range, and then goes on behind itself. What is no instruction faults for ever. -/
theorem retry_of_fault (hrunning : m.state = .running) (hfault : m.step.1.state = .errored fault)
    (n : Nat) :
    ((∀ k ≤ n, (retry^[k] m.step.1).StuckAt m.pc fault.code) ↔ m.fetch.op = .unknown ∨
      ∀ k ≤ n, OutOfRange isa (m.step.1.attempt m.fetch.op k)) ∧
    (m.fetch.op ≠ .unknown → (∀ k < n, OutOfRange isa (m.step.1.attempt m.fetch.op k)) →
      ¬ OutOfRange isa (m.step.1.attempt m.fetch.op n) →
      (retry^[n] m.step.1).pc = m.pc + m.fetch.size ∧ (retry^[n] m.step.1).state = .running) := by
  obtain ⟨hop, rfl⟩ | ⟨⟨r, hwritten⟩, hfirst, q, value, rfl⟩ := fault_cases hrunning hfault
  · refine ⟨⟨fun _ => .inl hop, fun _ k _ => ?_⟩, fun hknown => absurd hop hknown⟩
    obtain ⟨hpc, _, hstate⟩ := retry_of_unknown hrunning hop k
    exact ⟨hpc, _, hstate, rfl, rfl⟩
  have hknown : m.fetch.op ≠ .unknown := by
    intro hop
    rw [hop] at hwritten
    cases hwritten
  cases isa with
  | cdc6504 =>
    -- there is no limit that an address could exceed
    exact absurd (fun limit hlimit => nomatch hlimit) hfirst
  | cdc8512 =>
    have hretry := Cdc8512.retry_of_written hrunning hwritten
    refine ⟨⟨?_, ?_⟩, ?_⟩
    · intro hstuck
      right
      intro k
      induction k using Nat.strongRecOn with
      | _ k ih =>
        intro hk
        obtain ⟨hretried, _, hcases⟩ := hretry k fun j hj => ih j hj (by omega)
        rw [hretried.outOfRange_iff]
        obtain ⟨_, _, hgoes⟩ | ⟨hrange, _⟩ := hcases
        · obtain ⟨_, _, hstops, _⟩ := hstuck k hk
          cases hgoes.symm.trans hstops
        · exact hrange
    · intro hrange k hk
      replace hrange := hrange.resolve_left hknown
      obtain ⟨hretried, _, hcases⟩ := hretry k fun j hj => hrange j (by omega)
      obtain ⟨hin, _⟩ | ⟨_, hpc, _, _, hstops⟩ := hcases
      · exact absurd hin (hretried.outOfRange_iff.mp (hrange k hk))
      · exact ⟨hpc, _, hstops, rfl, rfl⟩
    · intro _ hbefore hin
      obtain ⟨hretried, _, hcases⟩ := hretry n hbefore
      rw [hretried.outOfRange_iff, not_not] at hin
      obtain ⟨_, hgoes⟩ | ⟨hrange, _⟩ := hcases
      · exact hgoes
      · exact absurd hin hrange

/-- What writes again the value it has written faults for ever. -/
theorem retry_of_again (hrunning : m.state = .running) (hfault : m.step.1.state = .errored fault)
    (hagain : ∀ v, m.step.1.again m.fetch.op v = v) (n : Nat) :
    (retry^[n] m.step.1).StuckAt m.pc fault.code := by
  refine (retry_of_fault hrunning hfault n).1.mpr ?_ n (Nat.le_refl n)
  obtain ⟨hop, _⟩ | ⟨_, hrange, _⟩ := fault_cases hrunning hfault
  · exact .inl hop
  · right
    intro k _
    rw [attempt_of_again hagain]
    exact outOfRange_iff.mpr hrange

end Machine

end Octet
