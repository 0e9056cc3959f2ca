import Octet.Proofs.Placement.Boundaries

/-!
# The instructions of a program at work

The assembler computes the operand of a jump or branch from the line and its address, and the machine
computes from the operand and the program counter where to go. Both computations are compared here, for
a machine that has come to a line of the program it holds.

The main statement is `step_at_line`.
-/

namespace Octet.Assembly

variable {isa : Isa} {ls : List Line} {line : Line} {p : Program} {k : Nat} {m : Machine isa}

/-- What a machine fetches at a line is what the line denotes, read at the program counter. -/
theorem Layout.fetch_line (h : Layout isa ls p) (hline : (instructionLines ls)[k]? = some line)
    (hprogram : m.instructions = p.instructions) (hpc : m.pc.toNat = start isa ls k) :
    ∃ name, line.mnemonic = some name.toList ∧ (name, m.fetch.size) ∈ isa.mnemonics ∧
      line.size isa = m.fetch.size.toNat ∧
      isa.Denotes { address := m.pc, labels := p.labels } name (tokens line.operands)
        m.fetch.op := by
  obtain ⟨name, op, code, hmnemonic, hsize, hmem, hdenotes, hop, hcode⟩ := h.fetch hline
  have hfetch : m.fetch = isa.fetch p.instructions m.pc := by
    rw [← hprogram]
    rfl
  rw [← hpc, UInt8.ofNat_toNat, ← hfetch] at hop hcode
  rw [← hpc, UInt8.ofNat_toNat] at hdenotes
  subst hop
  rw [← hcode] at hsize hmem
  exact ⟨name, hmnemonic, hmem, hsize, hdenotes⟩

/-- **Assembler and machine agree.** Take a running machine that holds an assembled program and stands
at one of its lines. If the line is a jump or a branch, then its operand resolves to a target, and the
step goes there if the condition holds, and two bytes on if not. Any other line that does not fault is
left behind by as many bytes as the encoder has made of it. Addresses count modulo 256. -/
theorem step_at_line {source : String} (h : assemble isa source = .ok p)
    (hline : (instructionLines (lines isa.commentMarks source.toList))[k]? = some line)
    (m : Machine isa) (hprogram : m.instructions = p.instructions)
    (hpc : m.pc.toNat = start isa (lines isa.commentMarks source.toList) k)
    (hrunning : m.state = .running) :
    let ctx : Context := { address := m.pc, labels := p.labels }
    (∀ name condition, (name, condition) ∈ isa.conditions → line.mnemonic = some name.toList →
      ∃ token target, tokens line.operands = [token] ∧ ctx.target token = .ok target ∧
        m.step.1.pc = if m.flags.test condition then target else m.pc + 2) ∧
    ((∀ name ∈ isa.transfers, line.mnemonic ≠ some name.toList) →
      (∀ fault, m.step.1.state ≠ .errored fault) →
      ∃ mnemonic code, line.mnemonic = some mnemonic ∧
        isa.encode ctx mnemonic (tokens line.operands) = .ok code ∧
        m.step.1.pc = m.pc + UInt8.ofNat code.bytes.length) := by
  intro ctx
  have hlayout := layout_of_assemble h
  obtain ⟨name, hmnemonic, hmem, hsize, hdenotes⟩ := hlayout.fetch_line hline hprogram hpc
  refine ⟨?_, ?_⟩
  · intro name' condition hname hmnemonic'
    obtain rfl := String.toList_inj.mp (Option.some.inj (hmnemonic.symm.trans hmnemonic'))
    obtain ⟨hcondition, token, target, htokens, hresolved, htarget⟩ := hdenotes.goes_to hname
    have htransfer : name ∈ isa.transfers := by
      rw [← isa.map_fst_conditions]
      exact List.mem_map_of_mem hname
    have htwo : m.fetch.size = 2 := isa.size_of_transfer _ hmem htransfer
    refine ⟨token, target, htokens, hresolved, ?_⟩
    rw [← htwo] at htarget ⊢
    exact Machine.step_pc_of_condition hrunning hcondition htarget
  · intro hother hfault
    obtain ⟨mnemonic, code, hmnemonic', hcode, hlength, _⟩ := hlayout.code k line hline
    rw [← hpc, UInt8.ofNat_toNat] at hcode
    have hstraight : m.fetch.op.target? (m.pc + m.fetch.size) = none := by
      rw [Option.eq_none_iff_forall_ne_some]
      intro target htarget
      obtain ⟨htransfer, _⟩ := hdenotes.operand_of_target? hmem htarget
      exact hother name htransfer hmnemonic
    refine ⟨mnemonic, code, hmnemonic', hcode, ?_⟩
    rw [← hlength, hsize, UInt8.ofNat_toNat]
    exact Machine.step_pc_of_straight hrunning hstraight hfault

/-- The branch of `countdown` at address 3, taken to its label, and the decrement in front of it. -/
theorem step_at_line_countdown :
    ∃ p, assemble .cdc6504 countdown = .ok p ∧
      let m : Machine .cdc6504 :=
        { pc := 3, flags := .status true false false, instructions := p.instructions }
      let before : Machine .cdc6504 := { m with pc := 2 }
      m.step.1.pc = 7 ∧ before.step.1.pc = 3 := by
  obtain ⟨p, hp⟩ := assemble_countdown
  refine ⟨p, hp, ?_⟩
  intro m before
  have hlayout := layout_of_assemble hp
  refine ⟨?_, ?_⟩
  · obtain ⟨token, target, htokens, htarget, hpc⟩ :=
      (step_at_line hp (k := 2) rfl m rfl rfl rfl).1 "BEQ" .zero (by decide) rfl
    obtain rfl : "end".toList = token := (List.cons.inj htokens).1
    have hlabel : p.labels.address? "end".toList = some 7 := (hlayout.label _ _).mpr
      ⟨(lines Isa.cdc6504.commentMarks countdown.toList).take 4, _, _, rfl, rfl, rfl⟩
    rw [Context.target, hlabel] at htarget
    obtain rfl := Except.ok.inj htarget
    exact hpc
  · have hrunning : ∀ fault, before.state ≠ .errored fault := by
      intro fault hstate
      cases hstate
    have hinside : before.Inside p.instructions
        (IsBoundary .cdc6504 (lines Isa.cdc6504.commentMarks countdown.toList) p) :=
      ⟨rfl, .inl ⟨1, _, rfl, rfl⟩, fun fault hstate => absurd hstate (hrunning fault)⟩
    have hfault : ∀ fault, before.step.1.state ≠ .errored fault := by
      intro fault hstate
      obtain ⟨_, limit, _, _, hlimit, _⟩ :=
        (hinside.step (hlayout.closed (by decide))).fault fault hstate
      cases hlimit
    obtain ⟨mnemonic, code, hmnemonic, hcode, hpc⟩ :=
      (step_at_line hp (k := 1) rfl before rfl rfl rfl).2 (by decide) hfault
    obtain rfl : "DEX".toList = mnemonic := Option.some.inj hmnemonic
    obtain rfl : Code.one 0xCA = code := Except.ok.inj hcode
    exact hpc

end Octet.Assembly
