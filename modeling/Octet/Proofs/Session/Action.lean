import Octet.Proofs.Encoding.Basic
import Octet.Proofs.Session.Run

/-!
# What can be done to a session

An `Action` is one of the operations of a session with its arguments, and `Session.act` is the
session after it, `Session.answer` what it answers. An operation that fails leaves the session as it
was, so that `act` is total, and what can be reached from a session is what `Session.acts` gives for
some list of actions.

* `acts_induction` — what every action of a kind preserves, any number of them preserves.
* `act_config`, `acts_config` — no action changes the configuration.
-/

namespace Octet.Session

/-- The operations that may change a session. -/
inductive Action where
  | load (source : String)
  | step
  | run (n : Nat)
  | runToLimit
  | resume
  | forceRunning
  | writeRegister (name : Token) (value : UInt8)
  | writeData (address value : UInt8)
  | writeInstruction (address value : UInt8)
  | restore (snapshot : Snapshot)
  | reset

/-- Whether an action leaves the program alone that has been loaded. -/
def Action.keepsProgram : Action → Bool
  | load _ => false
  | step => true
  | run _ => true
  | runToLimit => true
  | resume => true
  | forceRunning => true
  | writeRegister .. => true
  | writeData .. => true
  | writeInstruction .. => false
  | restore _ => false
  | reset => false

/-- The session after an action. -/
def act (s : Session) : Action → Session
  | .load source =>
    match s.load source with
    | .ok (loaded, _) => loaded
    | .error _ => s
  | .step => s.step.1
  | .run n => (s.run n).1
  | .runToLimit => s.runToLimit.1
  | .resume => s.resume
  | .forceRunning => s.forceRunning
  | .writeRegister name value => (s.writeRegister name value).1
  | .writeData address value => s.writeData address value
  | .writeInstruction address value => s.writeInstruction address value
  | .restore snapshot =>
    match s.restore snapshot with
    | .ok restored => restored
    | .error _ => s
  | .reset => s.reset

/-- What an operation answers. -/
inductive Answer where
  | loaded (result : Except (List Assembly.Diagnostic) Assembly.Program)
  | stepped (entry : Option Entry)
  | ran (executed : Nat) (state : RunState)
  /-- Whether the machine is running now. -/
  | resumed (running : Bool)
  | written (result : Except Error Unit)
  | restored (result : Except Error Unit)
  | done

/-- What an action answers. -/
def answer (s : Session) : Action → Answer
  | .load source => .loaded ((s.load source).map (·.2))
  | .step => .stepped s.step.2
  | .run n => .ran (s.run n).2 (s.run n).1.machine.state
  | .runToLimit => .ran s.runToLimit.2 s.runToLimit.1.machine.state
  | .resume => .resumed s.resume.isRunning
  | .forceRunning => .done
  | .writeRegister name value => .written (s.writeRegister name value).2
  | .writeData .. => .done
  | .writeInstruction .. => .done
  | .restore snapshot => .restored ((s.restore snapshot).map fun _ => ())
  | .reset => .done

/-- The session after several actions. -/
def acts (s : Session) (actions : List Action) : Session :=
  actions.foldl act s

variable {s : Session}

/-- What every action of a kind preserves, any number of them preserves. -/
theorem acts_induction (P : Session → Prop) (kind : Action → Prop)
    (hact : ∀ s action, kind action → P s → P (s.act action)) (hs : P s) (actions : List Action)
    (hkind : ∀ action ∈ actions, kind action) : P (s.acts actions) := by
  unfold acts
  induction actions generalizing s with
  | nil => exact hs
  | cons action rest ih =>
    rw [List.foldl_cons]
    refine ih (hact s action ?_ hs) fun other hother => hkind other (List.mem_cons_of_mem _ hother)
    exact hkind action List.mem_cons_self

/-! ## What the operations do -/

/-- Writing a register from outside changes the machine, or nothing at all. -/
theorem writeRegister_fst (s : Session) (name : Token) (value : UInt8) :
    (s.writeRegister name value).1 = s ∨
      ∃ r, (s.writeRegister name value).1 =
        { s with machine := (s.machine.hostWriteRegister r value).1 } := by
  unfold writeRegister
  split
  · exact .inl rfl
  · next r _ =>
    refine .inr ⟨r, ?_⟩
    rcases s.machine.hostWriteRegister r value with ⟨machine, fault⟩
    cases fault <;> rfl

theorem writeRegister_of_unknown {name : Token}
    (h : s.config.isa.layout.register? name = none) (value : UInt8) :
    s.writeRegister name value = (s, .error (.unknownRegister name)) := by
  simp [writeRegister, register, h]

/-- What writing a register from outside answers is told by the fault, if there is one. -/
theorem writeRegister_of_known {name : Token} {r : Reg}
    (h : s.config.isa.layout.register? name = some r) (value : UInt8) :
    s.writeRegister name value =
      ({ s with machine := (s.machine.hostWriteRegister r value).1 },
        ((s.machine.hostWriteRegister r value).2.map Error.faulted).elim (.ok ()) .error) := by
  simp only [writeRegister, register, h]
  rcases s.machine.hostWriteRegister r value with ⟨machine, fault⟩
  cases fault <;> rfl

theorem load_eq_ok {source : String} {loaded : Session} {program : Assembly.Program} :
    s.load source = .ok (loaded, program) ↔
      Assembly.assemble s.config.isa source = .ok program ∧ loaded = s.install program := by
  unfold load
  cases Assembly.assemble s.config.isa source with
  | error diagnostics => simp
  | ok program' =>
    simp only [Except.ok.injEq, Prod.mk.injEq]
    constructor
    · rintro ⟨rfl, rfl⟩
      exact ⟨rfl, rfl⟩
    · rintro ⟨rfl, rfl⟩
      exact ⟨rfl, rfl⟩

theorem memory_eq_ok {bytes : List UInt8} {bank : Bank} :
    memory bytes = .ok bank ↔ Bank.ofList? bytes = some bank := by
  unfold memory
  cases Bank.ofList? bytes <;> simp

/-- A snapshot of the same instruction set with two full memories is restored, and no other. -/
theorem restore_eq_ok {snapshot : Snapshot} {restored : Session} :
    s.restore snapshot = .ok restored ↔
      snapshot.isa = s.config.isa ∧ ∃ instructions data,
        Bank.ofList? snapshot.instructions = some instructions ∧
        Bank.ofList? snapshot.data = some data ∧
        restored =
          { s.reset with
            machine :=
              { s.reset.machine.restore snapshot.registers snapshot.state with
                instructions, data } } := by
  unfold restore
  by_cases hisa : snapshot.isa = s.config.isa
  · rw [if_pos hisa]
    constructor
    · intro h
      obtain ⟨instructions, hinstructions, h⟩ := bind_eq_ok.mp h
      obtain ⟨data, hdata, h⟩ := bind_eq_ok.mp h
      exact ⟨hisa, instructions, data, memory_eq_ok.mp hinstructions, memory_eq_ok.mp hdata,
        (Except.ok.inj h).symm⟩
    · rintro ⟨_, instructions, data, hinstructions, hdata, rfl⟩
      rw [memory_eq_ok.mpr hinstructions, memory_eq_ok.mpr hdata]
      rfl
  · rw [if_neg hisa]
    constructor
    · intro h
      cases h
    · rintro ⟨h, _⟩
      exact absurd h hisa

theorem config_of_restore {snapshot : Snapshot} {restored : Session}
    (h : s.restore snapshot = .ok restored) : restored.config = s.config := by
  unfold restore at h
  split at h
  · obtain ⟨instructions, _, h⟩ := bind_eq_ok.mp h
    obtain ⟨data, _, h⟩ := bind_eq_ok.mp h
    obtain rfl := Except.ok.inj h
    rfl
  · cases h

/-- No action changes the configuration. -/
theorem act_config (s : Session) (action : Action) : (s.act action).config = s.config := by
  cases action with
  | load source =>
    simp only [act]
    split
    · next loaded program h =>
      obtain ⟨_, rfl⟩ := load_eq_ok.mp h
      rfl
    · rfl
  | step =>
    show s.step.1.config = s.config
    rw [step_fst]
  | writeRegister name value =>
    show (s.writeRegister name value).1.config = s.config
    rcases s.writeRegister_fst name value with h | ⟨r, h⟩ <;> rw [h]
  | restore snapshot =>
    simp only [act]
    split
    · next restored h => exact config_of_restore h
    · rfl
  | run n => rfl
  | runToLimit => rfl
  | resume => rfl
  | forceRunning => rfl
  | writeData address value => rfl
  | writeInstruction address value => rfl
  | reset => rfl

theorem acts_config (s : Session) (actions : List Action) : (s.acts actions).config = s.config :=
  acts_induction (fun after => after.config = s.config) (fun _ => True)
    (fun after action _ h => (act_config after action).trans h) rfl actions fun _ _ => trivial

/-! ## What actions keep -/

/-- Whether an action neither takes a fault away nor takes over a machine from elsewhere. -/
def Action.isPlain : Action → Bool
  | forceRunning => false
  | restore _ => false
  | load _ => true
  | step => true
  | run _ => true
  | runToLimit => true
  | resume => true
  | writeRegister .. => true
  | writeData .. => true
  | writeInstruction .. => true
  | reset => true

/-- A property of machines that all parts of plain actions keep. -/
structure Kept (P : ∀ isa, Machine isa → Prop) : Prop where
  /-- A machine has it after a reset, with anything in its memories. -/
  reset : ∀ {isa} (m : Machine isa) (instructions data : Bank),
    P isa { m.reset with instructions, data }
  step : ∀ {isa} {m : Machine isa}, P isa m → P isa m.step.1
  resume : ∀ {isa} {m : Machine isa}, P isa m → P isa m.resume
  write : ∀ {isa} {m : Machine isa} (r : Reg) (v : UInt8), P isa m →
    P isa (m.hostWriteRegister r v).1
  edit : ∀ {isa} {m : Machine isa} (instructions data : Bank), P isa m →
    P isa { m with instructions, data }

theorem Kept.act {P : ∀ isa, Machine isa → Prop} (hP : Kept P) (h : P s.config.isa s.machine)
    (action : Action) (hplain : action.isPlain = true) :
    P (s.act action).config.isa (s.act action).machine := by
  cases action with
  | load source =>
    simp only [Session.act]
    split
    · next loaded program hload =>
      obtain ⟨_, rfl⟩ := load_eq_ok.mp hload
      exact hP.reset s.machine program.instructions program.data
    · exact h
  | step =>
    simp only [Session.act]
    rw [step_fst]
    exact hP.step h
  | run n => exact Machine.run_induction (fun _ => hP.step) h n
  | runToLimit => exact Machine.run_induction (fun _ => hP.step) h _
  | resume => exact hP.resume h
  | writeRegister name value =>
    simp only [Session.act]
    rcases s.writeRegister_fst name value with hwrite | ⟨r, hwrite⟩
    · rw [hwrite]
      exact h
    · rw [hwrite]
      exact hP.write r value h
  | writeData address value => exact hP.edit _ _ h
  | writeInstruction address value => exact hP.edit _ _ h
  | reset => exact hP.reset s.machine .zero .zero
  | forceRunning => cases hplain
  | restore snapshot => cases hplain

end Octet.Session
