import Octet.Proofs.Encoding.Cdc8512
import Octet.Proofs.Encoding.Decoding
import Octet.Proofs.Machine.AddressRange

/-!
# What a step writes

An operation that writes a register gives it a byte that the machine before tells (`outcome?`), and
the role of the register does the rest: but for the flags, executing the operation is setting and
coupling this register (`execute_of_outcome`), whether or not a fault comes of it. Any other operation
leaves the registers alone, and the data too unless it stores a byte (`execute_data_of_silent`).

The main statement is `step_writes`, which says for both instruction sets what a step changes and
that it changes nothing else.
-/

namespace Octet

theorem ofNat_sub_toNat (a b : UInt8) : UInt8.ofNat (256 + a.toNat - b.toNat) = a - b := by
  apply UInt8.toNat_inj.mp
  have hb := b.toNat_lt
  rw [UInt8.toNat_sub, UInt8.toNat_ofNat']
  omega

namespace Machine

variable {isa : Isa} {m : Machine isa} {i : Instruction} {r : Reg} {v : UInt8}

/-! ## What the machine before tells -/

/-- An address with an index register added to it, modulo 256. -/
def place (m : Machine isa) (address : UInt8) (index : Option Reg) : UInt8 :=
  UInt8.ofNat (address.toNat + (index.elim 0 fun r => (m.registers.read r).toNat))

/-- The byte that a source stands for. -/
def operand (m : Machine isa) : Source → UInt8
  | .immediate v => v
  | .memory address index => m.data.read (m.place address index)
  | .register r => m.registers.read r

/-- The register that an operation writes and its new value, where sums and differences of numbers
are taken modulo 256. -/
def outcome? (m : Machine isa) : Op → Option (Reg × UInt8)
  | .load dst src => some (dst, m.operand src)
  | .clear r => some (r, 0)
  | .add dst src =>
    some (dst, UInt8.ofNat ((m.registers.read dst).toNat + (m.operand src).toNat))
  | .sub dst src =>
    some (dst, UInt8.ofNat (256 + (m.registers.read dst).toNat - (m.operand src).toNat))
  | .inc r => some (r, UInt8.ofNat ((m.registers.read r).toNat + 1))
  | .dec r => some (r, UInt8.ofNat (256 + (m.registers.read r).toNat - 1))
  | .transfer dst src => some (dst, m.registers.read src)
  | .halt => none
  | .nop => none
  | .store .. => none
  | .compare .. => none
  | .jump .. => none
  | .branch .. => none
  | .unknown => none

/-- The address that an operation stores at, and the byte that it stores there. -/
def stored? (m : Machine isa) : Op → Option (UInt8 × UInt8)
  | .store src address index => some (m.place address index, m.registers.read src)
  | _ => none

/-- The flags when an operation writes its outcome. It has set the carry if it adds or subtracts. -/
def carried (m : Machine isa) : Op → Flags
  | .add dst src =>
    m.flags.setCarry (255 < (m.registers.read dst).toNat + (m.operand src).toNat)
  | .sub dst src => m.flags.setCarry ((m.operand src).toNat ≤ (m.registers.read dst).toNat)
  | _ => m.flags

theorem effectiveAddress_eq (m : Machine isa) (address : UInt8) (index : Option Reg) :
    m.effectiveAddress address index = m.place address index := by
  cases index with
  | none => simp [effectiveAddress, place]
  | some r => simp [effectiveAddress, place, UInt8.ofNat_add]

theorem value_eq (m : Machine isa) (src : Source) : m.value src = m.operand src := by
  cases src with
  | immediate v => rfl
  | memory address index => simp [value, operand, effectiveAddress_eq]
  | register r => rfl

theorem written?_eq (m : Machine isa) (op : Op) : op.written? = (m.outcome? op).map (·.1) := by
  cases op <;> rfl

theorem written?_eq_some {op : Op} (h : m.outcome? op = some (r, v)) : op.written? = some r := by
  rw [written?_eq m, h]
  rfl

theorem written?_eq_none {op : Op} (h : m.outcome? op = none) : op.written? = none := by
  rw [written?_eq m, h]
  rfl

theorem exists_outcome? {op : Op} (m : Machine isa) (h : op.written? = some r) :
    ∃ v, m.outcome? op = some (r, v) := by
  rw [written?_eq m] at h
  obtain ⟨⟨_, v⟩, houtcome, rfl⟩ := Option.map_eq_some_iff.mp h
  exact ⟨v, houtcome⟩

/-! ## Executing an operation -/

/-- An operation that writes a register writes its outcome back. -/
theorem execute_eq_writeBack (h : m.outcome? i.op = some (r, v)) :
    m.execute i = ({ m with flags := m.carried i.op } : Machine isa).writeBack r v := by
  unfold execute
  cases hop : i.op with
  | load dst src =>
    rw [hop, outcome?, ← value_eq] at h
    obtain ⟨rfl, rfl⟩ := Prod.mk.inj (Option.some.inj h)
    rfl
  | clear dst | transfer dst =>
    rw [hop] at h
    obtain ⟨rfl, rfl⟩ := Prod.mk.inj (Option.some.inj h)
    rfl
  | add dst src =>
    rw [hop, outcome?, ← value_eq, UInt8.ofNat_add, UInt8.ofNat_toNat, UInt8.ofNat_toNat] at h
    obtain ⟨rfl, rfl⟩ := Prod.mk.inj (Option.some.inj h)
    rw [carried, ← value_eq]
    rfl
  | sub dst src =>
    rw [hop, outcome?, ← value_eq, ofNat_sub_toNat] at h
    obtain ⟨rfl, rfl⟩ := Prod.mk.inj (Option.some.inj h)
    rw [carried, ← value_eq]
    rfl
  | inc dst =>
    rw [hop, outcome?, UInt8.ofNat_add, UInt8.ofNat_toNat] at h
    obtain ⟨rfl, rfl⟩ := Prod.mk.inj (Option.some.inj h)
    rfl
  | dec dst =>
    rw [hop, outcome?, show (1 : Nat) = (1 : UInt8).toNat from rfl, ofNat_sub_toNat] at h
    obtain ⟨rfl, rfl⟩ := Prod.mk.inj (Option.some.inj h)
    rfl
  | halt | nop | store | compare | jump | branch | unknown =>
    rw [hop] at h
    cases h

theorem couple_of_data (h : isa.layout.role r = .data) : m.couple r = m := by
  simp [couple, h]

theorem couple_of_load {paired : Reg} (h : isa.layout.role r = .load paired) :
    m.couple r = m.setRegister paired (m.data.read (m.registers.read r)) := by
  simp [couple, h]

theorem couple_of_store {paired : Reg} (h : isa.layout.role r = .store paired) :
    m.couple r =
      { m with data := m.data.write (m.registers.read r) (m.registers.read paired) } := by
  simp [couple, h]

theorem couple_setFlags (m : Machine isa) (r : Reg) (flags : Flags) :
    ({ m with flags } : Machine isa).couple r = { m.couple r with flags } := by
  simp only [couple]
  cases isa.layout.role r <;> rfl

/-- What is written back is set and coupled, and its sign is noted. -/
theorem writeBack_fst (m : Machine isa) (r : Reg) (v : UInt8) :
    (m.writeBack r v).1 =
      { (m.setRegister r v).couple r with flags := m.flags.noteResult v } := by
  have hwrite : (m.writeBack r v).1 = (m.writeRegister r v m.pc).1 := by
    unfold writeBack
    split
    · next h => rw [h]
    · next h => rw [h]
  rw [hwrite]
  exact couple_setFlags (m.setRegister r v) r (m.flags.noteResult v)

theorem execute_of_outcome (h : m.outcome? i.op = some (r, v)) :
    (m.execute i).1 =
      { (m.setRegister r v).couple r with flags := (m.carried i.op).noteResult v } := by
  rw [execute_eq_writeBack h, writeBack_fst,
    show ({ m with flags := m.carried i.op } : Machine isa).setRegister r v =
      { m.setRegister r v with flags := m.carried i.op } from rfl, couple_setFlags]

/-- An operation that writes no register changes no data either, unless it stores a byte. -/
theorem execute_data_of_silent (h : i.op.written? = none) :
    (m.execute i).1.data = (m.stored? i.op).elim m.data fun s => m.data.write s.1 s.2 := by
  unfold execute
  cases hop : i.op with
  | store src address index =>
    show m.data.write (m.effectiveAddress address index) (m.registers.read src) = _
    rw [effectiveAddress_eq]
    rfl
  | load | clear | add | sub | inc | dec | transfer =>
    rw [hop] at h
    cases h
  | halt | nop | compare | jump | branch | unknown => rfl

/-! ## Steps -/

theorem follow_data {flow : Flow} : (m.follow i flow).data = m.data := by
  cases flow <;> rfl

/-- Registers and data are what the operation makes of them, whatever flow comes of it. -/
theorem step_contents (h : m.state = .running) :
    m.step.1.registers = (m.execute m.fetch).1.registers ∧
      m.step.1.data = (m.execute m.fetch).1.data := by
  obtain ⟨trace, hstep⟩ := step_eq (m := m) (by rw [h]; rfl)
  rw [hstep]
  exact ⟨follow_registers, follow_data⟩

end Machine

/-! ## The two frames -/

/-- What a CDC8512 changes when `v` is written to the register `r`. The address registers `A0` … `A3`
are 0 … 3, and behind them, four places on, stand `X0` … `X3`. -/
structure Cdc8512.Writes (r : Reg) (v : UInt8) (m m' : Machine .cdc8512) : Prop where
  value : m'.registers.read r = v
  /-- `A0` and `A1` load `X0` and `X1` from the new address. -/
  loaded : r = 0 ∨ r = 1 → m'.registers.read (r + 4) = m.data.read v
  /-- `A2` and `A3` store `X2` and `X3` at the new address. -/
  stored : r = 2 ∨ r = 3 → m'.data.read v = m.registers.read (r + 4)
  registers : ∀ q < 8, q ≠ r → (r = 0 ∨ r = 1 → q ≠ r + 4) →
    m'.registers.read q = m.registers.read q
  data : ∀ a, (r = 2 ∨ r = 3 → a ≠ v) → m'.data.read a = m.data.read a

/-- What a CDC6504 changes when `v` is written to the register `r`. -/
structure Cdc6504.Writes (r : Reg) (v : UInt8) (m m' : Machine .cdc6504) : Prop where
  value : m'.registers.read r = v
  registers : ∀ q < 8, q ≠ r → m'.registers.read q = m.registers.read q
  data : m'.data = m.data

namespace Cdc8512

theorem role_eq {r : Reg} (hr : r < 8) : layout.role r =
    if r = 0 ∨ r = 1 then .load (r + 4) else if r = 2 ∨ r = 3 then .store (r + 4) else .data := by
  rcases register_cases hr with rfl | rfl | rfl | rfl | rfl | rfl | rfl | rfl <;> rfl

theorem Executes.written_lt {op : Op} {r : Reg} (h : Executes op) (hop : op.written? = some r) :
    r < 8 := by
  cases h with
  | load hr | clear hr | add hr | sub hr | inc hr | dec hr | transfer hr =>
    obtain rfl := Option.some.inj hop
    exact hr
  | addData hr | subData hr =>
    obtain rfl := Option.some.inj hop
    exact hr.2
  | halt | nop | compare | jump | unknown => cases hop

/-- The CDC8512 has no operation that stores. -/
theorem Executes.stored?_eq_none {op : Op} (h : Executes op) (m : Machine .cdc8512) :
    m.stored? op = none := by
  cases h <;> rfl

theorem add_four {r : Reg} (hr : r < 4) : r + 4 < 8 ∧ r + 4 ≠ r := by
  have hfour : (4 : UInt8).toNat = 4 := rfl
  have height : (8 : UInt8).toNat = 8 := rfl
  rw [UInt8.lt_iff_toNat_lt] at hr
  rw [UInt8.lt_iff_toNat_lt, ne_eq, ← UInt8.toNat_inj, UInt8.toNat_add]
  omega

theorem Writes.congr {r : Reg} {v : UInt8} {m m' m'' : Machine .cdc8512} (h : Writes r v m m')
    (hregisters : m''.registers = m'.registers) (hdata : m''.data = m'.data) :
    Writes r v m m'' := by
  refine ⟨?_, ?_, ?_, ?_, ?_⟩
  · rw [hregisters]
    exact h.value
  · rw [hregisters]
    exact h.loaded
  · rw [hdata]
    exact h.stored
  · rw [hregisters]
    exact h.registers
  · rw [hdata]
    exact h.data

/-- Setting and coupling a register comes to what is written. -/
theorem writes_couple {r : Reg} (hr : r < 8) (v : UInt8) (m : Machine .cdc8512) :
    Writes r v m ((m.setRegister r v).couple r) := by
  have hrole : Isa.cdc8512.layout.role r = _ := role_eq hr
  have hself : (m.setRegister r v).registers.read r = v := RegisterFile.read_write_self _ _ _
  have hother : ∀ q < 8, q ≠ r → (m.setRegister r v).registers.read q = m.registers.read q := by
    intro q hq hne
    exact RegisterFile.read_write_of_ne _ v hr hq hne
  by_cases hload : r = 0 ∨ r = 1
  · have hnot : ¬ (r = 2 ∨ r = 3) := by grind
    obtain ⟨hpaired, hne⟩ := add_four (r := r) (by rcases hload with rfl | rfl <;> decide)
    rw [if_pos hload] at hrole
    rw [Machine.couple_of_load hrole, hself]
    refine ⟨?_, ?_, fun h => absurd h hnot, ?_, fun _ _ => rfl⟩
    · exact (RegisterFile.read_write_of_ne _ _ hpaired hr hne.symm).trans hself
    · intro _
      exact RegisterFile.read_write_self _ _ _
    · intro q hq hqr hqpaired
      exact (RegisterFile.read_write_of_ne _ _ hpaired hq (hqpaired hload)).trans (hother q hq hqr)
  rw [if_neg hload] at hrole
  by_cases hstore : r = 2 ∨ r = 3
  · obtain ⟨hpaired, hne⟩ := add_four (r := r) (by rcases hstore with rfl | rfl <;> decide)
    rw [if_pos hstore] at hrole
    rw [Machine.couple_of_store hrole, hself, hother _ hpaired hne]
    refine ⟨hself, fun h => absurd h hload, ?_, fun q hq hqr _ => hother q hq hqr, ?_⟩
    · intro _
      exact Bank.read_write_self _ _ _
    · intro a ha
      exact Bank.read_write_of_ne _ _ (ha hstore).symm
  · rw [if_neg hstore] at hrole
    rw [Machine.couple_of_data hrole]
    exact ⟨hself, fun h => absurd h hload, fun h => absurd h hstore,
      fun q hq hqr _ => hother q hq hqr, fun _ _ => rfl⟩

theorem writes_step {m : Machine .cdc8512} {r : Reg} {v : UInt8} (hrunning : m.state = .running)
    (h : m.outcome? m.fetch.op = some (r, v)) : Writes r v m m.step.1 := by
  obtain ⟨hregisters, hdata⟩ := Machine.step_contents hrunning
  rw [Machine.execute_of_outcome h] at hregisters hdata
  have hexecutes : Executes m.fetch.op := executes_decode _ _
  have hr : r < 8 := hexecutes.written_lt (Machine.written?_eq_some h)
  exact (writes_couple hr v m).congr hregisters hdata

end Cdc8512

namespace Cdc6504

/-- No register is an address register. -/
theorem role_eq (r : Reg) : layout.role r = .data := by
  show [Role.data, Role.data, Role.data].getD r.toNat Role.data = Role.data
  match r.toNat with
  | 0 | 1 | 2 | _ + 3 => rfl

theorem written_lt {raw next : UInt8} {r : Reg} (h : (table.decode raw next).op.written? = some r) :
    r < 8 := by
  refine DecodeTable.op_decode (P := fun op => ∀ r, op.written? = some r → r < 8) nofun ?_ raw next r h
  simp [table, implied, withByte, onValue, onMemory, storing, branch, Op.written?, acc, x, y]

theorem Writes.congr {r : Reg} {v : UInt8} {m m' m'' : Machine .cdc6504} (h : Writes r v m m')
    (hregisters : m''.registers = m'.registers) (hdata : m''.data = m'.data) :
    Writes r v m m'' := by
  refine ⟨?_, ?_, hdata.trans h.data⟩
  · rw [hregisters]
    exact h.value
  · rw [hregisters]
    exact h.registers

theorem writes_couple {r : Reg} (hr : r < 8) (v : UInt8) (m : Machine .cdc6504) :
    Writes r v m ((m.setRegister r v).couple r) := by
  have hrole : Isa.cdc6504.layout.role r = .data := role_eq r
  rw [Machine.couple_of_data hrole]
  refine ⟨RegisterFile.read_write_self _ _ _, ?_, rfl⟩
  intro q hq hne
  exact RegisterFile.read_write_of_ne _ v hr hq hne

theorem writes_step {m : Machine .cdc6504} {r : Reg} {v : UInt8} (hrunning : m.state = .running)
    (h : m.outcome? m.fetch.op = some (r, v)) : Writes r v m m.step.1 := by
  obtain ⟨hregisters, hdata⟩ := Machine.step_contents hrunning
  rw [Machine.execute_of_outcome h] at hregisters hdata
  have hr : r < 8 := written_lt (Machine.written?_eq_some h)
  exact (writes_couple hr v m).congr hregisters hdata

end Cdc6504

namespace Machine

/-- **What a step writes.** A step of a running machine writes the register that the instruction
names, and gives it the byte that the machine before tells. On the CDC8512 the address registers
`A0` and `A1` then load a data register, and `A2` and `A3` store one; this is so whether or not the
step faults. On the CDC6504 a byte of data is changed by a store only. Nothing else is changed, and
nothing at all by a machine that is not running. -/
theorem step_writes :
    (∀ m : Machine .cdc8512, m.state = .running →
      (∀ r v, m.outcome? m.fetch.op = some (r, v) → Cdc8512.Writes r v m m.step.1) ∧
      (m.outcome? m.fetch.op = none →
        m.step.1.registers = m.registers ∧ m.step.1.data = m.data)) ∧
    (∀ m : Machine .cdc6504, m.state = .running →
      (∀ r v, m.outcome? m.fetch.op = some (r, v) → Cdc6504.Writes r v m m.step.1) ∧
      (m.outcome? m.fetch.op = none →
        m.step.1.registers = m.registers ∧
        (∀ a v, m.stored? m.fetch.op = some (a, v) →
          m.step.1.data.read a = v ∧ ∀ b, b ≠ a → m.step.1.data.read b = m.data.read b) ∧
        (m.stored? m.fetch.op = none → m.step.1.data = m.data))) ∧
    ∀ (isa : Isa) (m : Machine isa), m.state ≠ .running → m.step = (m, none) := by
  refine ⟨?_, ?_, ?_⟩
  · intro m hrunning
    constructor
    · intro r v h
      exact Cdc8512.writes_step hrunning h
    · intro h
      obtain ⟨hregisters, hdata⟩ := step_contents hrunning
      have hexecutes : Cdc8512.Executes m.fetch.op := Cdc8512.executes_decode _ _
      have hsilent := written?_eq_none h
      refine ⟨hregisters.trans (execute_registers hsilent), ?_⟩
      rw [hdata, execute_data_of_silent hsilent, hexecutes.stored?_eq_none]
      rfl
  · intro m hrunning
    constructor
    · intro r v h
      exact Cdc6504.writes_step hrunning h
    · intro h
      obtain ⟨hregisters, hdata⟩ := step_contents hrunning
      have hsilent := written?_eq_none h
      rw [execute_data_of_silent hsilent] at hdata
      refine ⟨hregisters.trans (execute_registers hsilent), ?_, ?_⟩
      · intro a v hstored
        rw [hdata, hstored]
        refine ⟨Bank.read_write_self _ _ _, ?_⟩
        intro b hb
        exact Bank.read_write_of_ne _ _ hb.symm
      · intro hstored
        rw [hdata, hstored]
        rfl
  · intro isa m hstopped
    apply step_of_not_running
    cases hstate : m.state with
    | running => exact absurd hstate hstopped
    | halted | errored => rfl

/-- `SET A2, 200` with 7 in `X2` faults, and has stored the 7 by then. `STA $F0,X` with 32 in `X` goes
on at address 16. -/
theorem step_writes_past_limit :
    let m : Machine .cdc8512 :=
      { registers := RegisterFile.zero.write 6 7
        instructions := Bank.zero.writeBytes 0 [0x82, 200] }
    let m' : Machine .cdc6504 :=
      { registers := (RegisterFile.zero.write 0 9).write 1 32
        instructions := Bank.zero.writeBytes 0 [0x95, 0xF0] }
    m.step.1.state = .errored (.addressOutOfRange 0 2 200) ∧ m.step.1.data.read 200 = 7 ∧
      (∀ a, a ≠ 200 → m.step.1.data.read a = m.data.read a) ∧
      m'.step.1.data.read 16 = 9 ∧ ∀ a, a ≠ 16 → m'.step.1.data.read a = m'.data.read a := by
  intro m m'
  have hwritten := (step_writes.1 m rfl).1 2 200 (by decide)
  obtain ⟨_, hstored, _⟩ := (step_writes.2.1 m' rfl).2 (by decide)
  obtain ⟨hbyte, hframe⟩ := hstored 16 9 (by decide)
  exact ⟨by decide, hwritten.stored (.inl rfl), fun a ha => hwritten.data a fun _ => ha, hbyte, hframe⟩

end Machine

end Octet
