import Octet.Proofs.Session.Action

/-!
# Flags of the right model

Instructions and edits change flags within their model, and a reset gives the flags of the
instruction set. So the flags of a session fit its instruction set (`Session.FlagsFit`) until a
snapshot is restored whose flags do not fit: the flags of a snapshot are taken over as they are
(`restore_flags`), and nothing but its instruction set and the sizes of its memories is looked at
(`exists_restore_iff`). So the flags fit exactly as long as those of the snapshots do, which is the
main statement, `flagsFit_iff_of_acts`.
-/

namespace Octet

/-- The flags of a snapshot are of the model of its instruction set. -/
def Snapshot.FlagsFit (snapshot : Snapshot) : Prop :=
  snapshot.registers.flags.model = snapshot.isa.flagModel

instance (snapshot : Snapshot) : Decidable snapshot.FlagsFit :=
  inferInstanceAs (Decidable (snapshot.registers.flags.model = snapshot.isa.flagModel))

/-- What a session of an instruction set looks at before it restores a snapshot. -/
def Snapshot.Restorable (isa : Isa) (snapshot : Snapshot) : Prop :=
  snapshot.isa = isa ∧ snapshot.instructions.length = 256 ∧ snapshot.data.length = 256

theorem Bank.ofList?_of_length {bytes : List UInt8} (h : bytes.length = 256) :
    Bank.ofList? bytes = some ⟨⟨bytes.toArray, by simpa using h⟩⟩ :=
  dif_pos h

theorem Bank.length_of_ofList? {bytes : List UInt8} {bank : Bank}
    (h : Bank.ofList? bytes = some bank) : bytes.length = 256 := by
  unfold Bank.ofList? at h
  split at h
  · assumption
  · cases h

namespace Machine

variable {isa : Isa} {m : Machine isa} {i : Instruction} {r : Reg} {v : UInt8}

/-! ## Machines -/

theorem couple_flags : (m.couple r).flags = m.flags := by
  simp only [couple]
  cases isa.layout.role r <;> rfl

theorem writeRegister_flags (pc : UInt8) :
    (m.writeRegister r v pc).1.flags = m.flags.noteResult v := by
  simp only [writeRegister]
  rw [couple_flags]

theorem writeBack_flags : (m.writeBack r v).1.flags = m.flags.noteResult v := by
  rw [← writeRegister_flags m.pc]
  unfold writeBack
  split
  · next h => rw [h]
  · next h => rw [h]

theorem execute_flags_model (m : Machine isa) (i : Instruction) :
    (m.execute i).1.flags.model = m.flags.model := by
  unfold execute
  cases i.op with
  | load | clear | inc | dec | transfer | add | sub => simp [writeBack_flags]
  | compare => simp
  | _ => rfl

theorem step_flags_model (m : Machine isa) : m.step.1.flags.model = m.flags.model := by
  by_cases hrunning : m.state.isRunning
  · obtain ⟨trace, hstep⟩ := step_eq hrunning
    rw [hstep]
    show ((m.execute m.fetch).1.follow m.fetch (m.execute m.fetch).2).flags.model = _
    rw [← execute_flags_model m m.fetch]
    cases (m.execute m.fetch).2 <;> rfl
  · rw [step_of_not_running (by simpa using hrunning)]

theorem hostWriteRegister_flags (m : Machine isa) (r : Reg) (v : UInt8) :
    (m.hostWriteRegister r v).1.flags = m.flags.noteResult v := by
  rw [hostWriteRegister_eq]
  exact writeRegister_flags m.pc

theorem resume_flags (m : Machine isa) : m.resume.flags = m.flags := by
  unfold resume
  cases m.state <;> rfl

end Machine

namespace Session

/-! ## Sessions -/

/-- The flags of a session are of the model of its instruction set. -/
def FlagsFit (s : Session) : Prop :=
  s.machine.flags.model = s.config.isa.flagModel

variable {s : Session}

theorem flagsFit_ofConfig (config : Config) : (ofConfig config).FlagsFit :=
  Flags.model_initial _

theorem kept_flags : Kept fun isa m => m.flags.model = isa.flagModel where
  reset _ _ _ := Flags.model_initial _
  step h := (Machine.step_flags_model _).trans h
  resume h := by rw [Machine.resume_flags, h]
  write r v h := by rw [Machine.hostWriteRegister_flags, Flags.model_noteResult, h]
  edit _ _ h := h

/-- The flags of a snapshot are taken over, whatever they are. -/
theorem restore_flags {snapshot : Snapshot} {restored : Session}
    (h : s.restore snapshot = .ok restored) : restored.FlagsFit ↔ snapshot.FlagsFit := by
  obtain ⟨hisa, instructions, data, _, _, rfl⟩ := restore_eq_ok.mp h
  unfold Snapshot.FlagsFit
  rw [hisa]
  rfl

theorem exists_restore_iff {snapshot : Snapshot} :
    (∃ restored, s.restore snapshot = .ok restored) ↔ snapshot.Restorable s.config.isa := by
  simp only [restore_eq_ok]
  constructor
  · rintro ⟨_, hisa, instructions, data, hinstructions, hdata, _⟩
    exact ⟨hisa, Bank.length_of_ofList? hinstructions, Bank.length_of_ofList? hdata⟩
  · rintro ⟨hisa, hinstructions, hdata⟩
    exact ⟨_, hisa, _, _, Bank.ofList?_of_length hinstructions, Bank.ofList?_of_length hdata, rfl⟩

/-- Where the flags fit, only the flags of a snapshot can spoil it. -/
theorem FlagsFit.act_iff (h : s.FlagsFit) (action : Action) :
    (s.act action).FlagsFit ↔
      ∀ snapshot, action = .restore snapshot → snapshot.Restorable s.config.isa →
        snapshot.FlagsFit := by
  cases action with
  | restore snapshot =>
    simp only [act, Action.restore.injEq, forall_eq']
    rw [← exists_restore_iff]
    cases hrestore : s.restore snapshot with
    | ok restored =>
      rw [restore_flags hrestore]
      simp
    | error e =>
      constructor
      · rintro _ ⟨restored, hrestored⟩
        cases hrestored
      · intro _
        exact h
  | forceRunning =>
    constructor
    · intro _ _ hrestore
      cases hrestore
    · intro _
      exact h
  | load | step | run | runToLimit | resume | writeRegister | writeData | writeInstruction | reset =>
    constructor
    · intro _ _ hrestore
      cases hrestore
    · intro _
      exact kept_flags.act h _ rfl

theorem FlagsFit.acts (h : s.FlagsFit) {actions : List Action}
    (hactions : ∀ snapshot, .restore snapshot ∈ actions → snapshot.Restorable s.config.isa →
      snapshot.FlagsFit) : (s.acts actions).FlagsFit := by
  induction actions generalizing s with
  | nil => exact h
  | cons action rest ih =>
    refine ih ((h.act_iff action).mpr ?_) ?_
    · intro snapshot haction
      exact hactions snapshot (haction ▸ List.mem_cons_self)
    · intro snapshot hmem
      rw [act_config]
      exact hactions snapshot (List.mem_cons_of_mem _ hmem)

/-- The flags of a session fit its instruction set from the start on and after each of any number of
actions, if and only if they fit in all snapshots that the actions restore. -/
theorem flagsFit_iff_of_acts (config : Config) (actions : List Action) :
    (∀ n, ((ofConfig config).acts (actions.take n)).FlagsFit) ↔
      ∀ snapshot, .restore snapshot ∈ actions → snapshot.Restorable config.isa →
        snapshot.FlagsFit := by
  constructor
  · intro h snapshot hmem hrestorable
    obtain ⟨n, hn⟩ := List.mem_iff_getElem?.mp hmem
    have hlater := h (n + 1)
    rw [List.take_add_one, hn, Session.acts, List.foldl_append] at hlater
    -- the step at which the snapshot is restored
    have hstep := ((h n).act_iff (.restore snapshot)).mp hlater
    rw [acts_config] at hstep
    exact hstep snapshot rfl hrestorable
  · intro h n
    refine (flagsFit_ofConfig config).acts ?_
    intro snapshot hmem
    exact h snapshot (List.mem_of_mem_take hmem)

/-- A machine that is saved and restored over and over keeps its flags. -/
theorem flagsFit_iff_of_acts_saved :
    let saved := ((ofConfig { isa := .cdc6504 }).acts [.writeInstruction 0 0xE8, .step]).snapshot
    let actions : List Action := [.restore saved, .forceRunning, .step, .restore saved]
    saved.Restorable .cdc6504 ∧
      ∀ n, ((ofConfig { isa := .cdc6504 }).acts (actions.take n)).FlagsFit := by
  intro saved actions
  have hrestorable : saved.Restorable .cdc6504 :=
    ⟨rfl, Bank.length_toList _, Bank.length_toList _⟩
  refine ⟨hrestorable, (flagsFit_iff_of_acts { isa := .cdc6504 } actions).mpr ?_⟩
  intro snapshot hmem _
  have hsaved : snapshot = saved := by simpa [actions] using hmem
  rw [hsaved]
  decide +kernel

/-- A snapshot of a CDC8512 with the status bits of a CDC6504 can be read, and a CDC8512 takes it. -/
theorem restore_foreign_flags :
    let snapshot : Snapshot :=
      { (ofConfig {}).snapshot with
        registers := { pc := 0, file := .zero, flags := .status true false false } }
    Snapshot.ofJson? snapshot.toJson = some snapshot ∧
      ∃ restored, (ofConfig {}).restore snapshot = .ok restored ∧ ¬ restored.FlagsFit := by
  intro snapshot
  refine ⟨by decide +kernel, ?_⟩
  have hrestored := restore_eq_ok.mpr ⟨(rfl : snapshot.isa = (ofConfig {}).config.isa), .zero, .zero,
    Bank.ofList?_toList _, Bank.ofList?_toList _, rfl⟩
  refine ⟨_, hrestored, ?_⟩
  rw [restore_flags hrestored]
  decide

end Session

end Octet
