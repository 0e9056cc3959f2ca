import Octet.Proofs.Session.Flags

/-!
# Operations in place

A session is changed in place: what has been written stays written, also when something fails
afterwards. A `Procedure` tells an operation in this way, with its checks and its writes one after
another, and the equations `run_load`, `run_restore`, `run_writeRegister` and so on say that it comes
to what the operation gives as a function of the session.

So everything that can fail is looked at before the first write, but for the range of the addresses
when a register is written. An action that is refused changes nothing then, and can be left out of any
history (`acts_accepted`).

The main statement is `refusals_change_nothing`.
-/

namespace Octet.Session

/-- A computation that changes a session in place, and may fail half-way. -/
abbrev Procedure (ε α : Type) := EStateM ε Session α

namespace Procedure

variable {ε α : Type}

/-! ## The operations -/

def setInstructions (instructions : Bank) : Procedure ε Unit :=
  modify fun s => { s with machine := { s.machine with instructions } }

def setData (data : Bank) : Procedure ε Unit :=
  modify fun s => { s with machine := { s.machine with data } }

def setProgram (program : Option Assembly.Program) : Procedure ε Unit :=
  modify fun s => { s with program }

/-- Clears the machine, then its memories, then what has been done with it. -/
def reset : Procedure ε Unit := do
  modify fun s => { s with machine := s.machine.reset }
  setInstructions .zero
  setData .zero
  setProgram none
  modify fun s => { s with steps := 0 }

def load (source : String) : Procedure (List Assembly.Diagnostic) Assembly.Program := do
  let program ← ofExcept (Assembly.assemble (← get).config.isa source)
  reset
  setInstructions program.instructions
  setData program.data
  setProgram (some program)
  return program

/-- Both memories of the snapshot are looked at before anything is cleared. -/
def restore (snapshot : Snapshot) : Procedure Error Unit := do
  let isa := (← get).config.isa
  if snapshot.isa ≠ isa then
    throw (.isaMismatch isa snapshot.isa)
  let instructions ← ofExcept (memory snapshot.instructions)
  let data ← ofExcept (memory snapshot.data)
  reset
  setInstructions instructions
  setData data
  modify fun s => { s with machine := s.machine.restore snapshot.registers snapshot.state }

def restoreText (text : String) : Procedure Error Unit :=
  match Snapshot.ofText? text with
  | some snapshot => restore snapshot
  | none => throw .malformedSnapshot

def readRegister (name : Token) : Procedure Error UInt8 := do
  let r ← ofExcept ((← get).register name)
  return (← get).machine.registers.read r

/-- Stops the machine where an address register is not in range. -/
def checkRange : Procedure Error Unit := do
  let m := (← get).machine
  match m.rangeFault? m.pc with
  | none => return ()
  | some fault =>
    modify fun s => { s with machine := { s.machine with state := .errored fault } }
    throw (.faulted fault)

/-- Register, flags and data memory have been written when the range of the addresses is looked at,
and stay so. -/
def writeRegister (name : Token) (value : UInt8) : Procedure Error Unit := do
  let r ← ofExcept ((← get).register name)
  modify fun s => { s with machine := s.machine.setRegister r value }
  modify fun s => { s with machine := { s.machine with flags := s.machine.flags.noteResult value } }
  modify fun s => { s with machine := s.machine.couple r }
  checkRange

/-- The session that is there afterwards, whether or not the procedure has failed. -/
def after (p : Procedure ε α) (s : Session) : Session :=
  match p.run s with
  | .ok _ s' => s'
  | .error _ s' => s'

/-! ## What they come to -/

theorem run_reset (s : Session) : (reset : Procedure ε Unit).run s = .ok () s.reset := rfl

theorem run_ofExcept (result : Except ε α) (s : Session) :
    (ofExcept result : Procedure ε α).run s =
      match result with
      | .ok a => .ok a s
      | .error e => .error e s := by
  cases result <;> rfl

theorem run_load (source : String) (s : Session) :
    (load source).run s =
      match s.load source with
      | .ok (loaded, program) => .ok program loaded
      | .error diagnostics => .error diagnostics s := by
  unfold load Session.load
  simp only [EStateM.run_bind, EStateM.run_get, run_ofExcept]
  cases Assembly.assemble s.config.isa source with
  | error diagnostics => rfl
  | ok program =>
    simp only [run_reset]
    rfl

theorem run_restore (snapshot : Snapshot) (s : Session) :
    (restore snapshot).run s =
      match s.restore snapshot with
      | .ok restored => .ok () restored
      | .error e => .error e s := by
  unfold restore Session.restore
  simp only [EStateM.run_bind, EStateM.run_get]
  by_cases hisa : snapshot.isa = s.config.isa
  · rw [if_neg (not_not.mpr hisa), if_pos hisa]
    simp only [EStateM.run_bind, run_ofExcept]
    cases memory snapshot.instructions with
    | error e => rfl
    | ok instructions =>
      cases memory snapshot.data with
      | error e => rfl
      | ok data =>
        simp only [run_reset]
        rfl
  · rw [if_pos hisa, if_neg hisa]
    rfl

theorem run_restoreText (text : String) (s : Session) :
    (restoreText text).run s =
      match s.restoreText text with
      | .ok restored => .ok () restored
      | .error e => .error e s := by
  unfold restoreText Session.restoreText
  cases Snapshot.ofText? text with
  | some snapshot => exact run_restore snapshot s
  | none => rfl

theorem run_readRegister (name : Token) (s : Session) :
    (readRegister name).run s =
      match s.readRegister name with
      | .ok value => .ok value s
      | .error e => .error e s := by
  unfold readRegister Session.readRegister
  simp only [EStateM.run_bind, EStateM.run_get, run_ofExcept]
  cases s.register name <;> rfl

theorem run_checkRange (s : Session) :
    checkRange.run s =
      match s.machine.rangeFault? s.machine.pc with
      | none => .ok () s
      | some fault =>
        .error (.faulted fault) { s with machine := { s.machine with state := .errored fault } } := by
  unfold checkRange
  simp only [EStateM.run_bind, EStateM.run_get]
  cases s.machine.rangeFault? s.machine.pc <;> rfl

theorem run_writeRegister (name : Token) (value : UInt8) (s : Session) :
    (writeRegister name value).run s =
      match s.writeRegister name value with
      | (written, .ok ()) => .ok () written
      | (written, .error e) => .error e written := by
  unfold writeRegister Session.writeRegister
  simp only [EStateM.run_bind, EStateM.run_get, run_ofExcept]
  cases s.register name with
  | error e => rfl
  | ok r =>
    -- the range is looked at with the program counter of before
    have hfault : (s.machine.writeRegister r value s.machine.pc).1.rangeFault?
          (s.machine.writeRegister r value s.machine.pc).1.pc =
        (s.machine.writeRegister r value s.machine.pc).2 := by
      rw [(Machine.writeRegister_sameControl s.machine r value s.machine.pc).pc]
      rfl
    show checkRange.run { s with machine := (s.machine.writeRegister r value s.machine.pc).1 } = _
    simp only [run_checkRange, hfault, Machine.hostWriteRegister]
    rcases s.machine.writeRegister r value s.machine.pc with ⟨machine, _ | fault⟩ <;> rfl

/-! ## What they leave -/

theorem after_load (source : String) (s : Session) :
    (load source).after s = s.act (.load source) := by
  simp only [after, act, run_load]
  cases s.load source <;> rfl

theorem after_restore (snapshot : Snapshot) (s : Session) :
    (restore snapshot).after s = s.act (.restore snapshot) := by
  simp only [after, act, run_restore]
  cases s.restore snapshot <;> rfl

theorem after_restoreText (text : String) (s : Session) :
    (restoreText text).after s = (s.restoreText text).toOption.getD s := by
  simp only [after, run_restoreText]
  cases s.restoreText text <;> rfl

theorem after_writeRegister (name : Token) (value : UInt8) (s : Session) :
    (writeRegister name value).after s = s.act (.writeRegister name value) := by
  simp only [after, act, run_writeRegister]
  rcases s.writeRegister name value with ⟨written, _ | _⟩ <;> rfl

end Procedure

variable {s : Session}

/-! ## Refusals -/

theorem load_eq_error {source : String} {diagnostics : List Assembly.Diagnostic} :
    s.load source = .error diagnostics ↔
      Assembly.assemble s.config.isa source = .error diagnostics := by
  unfold load
  cases Assembly.assemble s.config.isa source <;> simp

theorem memory_eq_error {bytes : List UInt8} {e : Error} :
    memory bytes = .error e ↔ bytes.length ≠ 256 ∧ e = .badMemory bytes.length := by
  unfold memory
  cases hbank : Bank.ofList? bytes with
  | some bank => simp [Bank.length_of_ofList? hbank]
  | none =>
    have hlength : bytes.length ≠ 256 := by
      intro h
      cases hbank.symm.trans (Bank.ofList?_of_length h)
    simp [hlength, eq_comm]

/-- The instruction set of a snapshot is looked at first, then its two memories in order. -/
theorem restore_eq_error {snapshot : Snapshot} {e : Error} :
    s.restore snapshot = .error e ↔
      snapshot.isa ≠ s.config.isa ∧ e = .isaMismatch s.config.isa snapshot.isa ∨
      snapshot.isa = s.config.isa ∧ snapshot.instructions.length ≠ 256 ∧
        e = .badMemory snapshot.instructions.length ∨
      snapshot.isa = s.config.isa ∧ snapshot.instructions.length = 256 ∧
        snapshot.data.length ≠ 256 ∧ e = .badMemory snapshot.data.length := by
  unfold restore
  by_cases hisa : snapshot.isa = s.config.isa
  · rw [if_pos hisa]
    cases hinstructions : memory snapshot.instructions with
    | error e' =>
      obtain ⟨hlength, rfl⟩ := memory_eq_error.mp hinstructions
      simp [bind, Except.bind, hisa, hlength, eq_comm]
    | ok instructions =>
      have hfull := Bank.length_of_ofList? (memory_eq_ok.mp hinstructions)
      cases hdata : memory snapshot.data with
      | error e' =>
        obtain ⟨hlength, rfl⟩ := memory_eq_error.mp hdata
        simp [bind, Except.bind, hisa, hfull, hlength, eq_comm]
      | ok data =>
        have hfull' := Bank.length_of_ofList? (memory_eq_ok.mp hdata)
        simp [bind, Except.bind, pure, Except.pure, hisa, hfull, hfull']
  · rw [if_neg hisa]
    simp [hisa, eq_comm]

theorem readRegister_eq_error {name : Token} {e : Error} :
    s.readRegister name = .error e ↔
      s.config.isa.layout.register? name = none ∧ e = .unknownRegister name := by
  unfold readRegister register
  cases s.config.isa.layout.register? name <;> simp [Except.map, eq_comm]

/-- Only of an unknown register is said that it is unknown. -/
theorem writeRegister_eq_unknown {name name' : Token} {value : UInt8} {s' : Session} :
    s.writeRegister name value = (s', .error (.unknownRegister name')) ↔
      s.config.isa.layout.register? name = none ∧ name' = name ∧ s' = s := by
  cases hname : s.config.isa.layout.register? name with
  | none => simp [writeRegister_of_unknown hname, and_comm, eq_comm]
  | some r =>
    rw [writeRegister_of_known hname]
    cases (s.machine.hostWriteRegister r value).2 <;> simp

/-! ## Actions that are refused -/

/-- Whether an operation has failed before it has written anything. -/
def Answer.refused : Answer → Bool
  | .loaded (.error _) => true
  | .written (.error (.faulted _)) => false
  | .written (.error _) => true
  | .restored (.error _) => true
  | _ => false

/-- The actions of a history that are not refused. -/
def accepted (s : Session) : List Action → List Action
  | [] => []
  | action :: rest =>
    if (s.answer action).refused then s.accepted rest
    else action :: (s.act action).accepted rest

theorem act_of_refused {action : Action} (h : (s.answer action).refused = true) :
    s.act action = s := by
  cases action with
  | load source =>
    simp only [answer, act] at h ⊢
    cases hload : s.load source with
    | ok loaded =>
      rw [hload] at h
      cases h
    | error diagnostics => rfl
  | restore snapshot =>
    simp only [answer, act] at h ⊢
    cases hrestore : s.restore snapshot with
    | ok restored =>
      rw [hrestore] at h
      cases h
    | error e => rfl
  | writeRegister name value =>
    simp only [answer, act] at h ⊢
    cases hname : s.config.isa.layout.register? name with
    | none => rw [writeRegister_of_unknown hname]
    | some r =>
      rw [writeRegister_of_known hname] at h
      cases hfault : (s.machine.hostWriteRegister r value).2 <;> simp [hfault, Answer.refused] at h
  | step | run | runToLimit | resume | forceRunning | writeData | writeInstruction | reset => cases h

/-- Whatever has been refused can be left out of a history. -/
theorem acts_accepted (s : Session) (actions : List Action) :
    s.acts (s.accepted actions) = s.acts actions := by
  induction actions generalizing s with
  | nil => rfl
  | cons action rest ih =>
    have hrest : s.acts (action :: rest) = (s.act action).acts rest := rfl
    unfold accepted
    split
    · next hrefused => rw [ih, hrest, act_of_refused hrefused]
    · rw [hrest, ← ih]
      rfl

/-! ## What is refused, and why -/

/-- What fails before it has written anything leaves the session as it was, and it is told why: a
source that does not assemble, a snapshot of another instruction set, and otherwise one with a memory
that is not of 256 bytes, a text that holds no snapshot, an unknown name of a register. Nothing else
fails, apart from a register that is written with a fault. So an action that is refused changes
nothing, and can be left out of a history; and what is left in place, whether or not anything has failed,
is what the actions give. -/
theorem refusals_change_nothing (s : Session) :
    (∀ source diagnostics s', (Procedure.load source).run s = .error diagnostics s' ↔
      Assembly.assemble s.config.isa source = .error diagnostics ∧ s' = s) ∧
    (∀ snapshot e s', (Procedure.restore snapshot).run s = .error e s' ↔
      (snapshot.isa ≠ s.config.isa ∧ e = .isaMismatch s.config.isa snapshot.isa ∨
        snapshot.isa = s.config.isa ∧ snapshot.instructions.length ≠ 256 ∧
          e = .badMemory snapshot.instructions.length ∨
        snapshot.isa = s.config.isa ∧ snapshot.instructions.length = 256 ∧
          snapshot.data.length ≠ 256 ∧ e = .badMemory snapshot.data.length) ∧ s' = s) ∧
    (∀ text e s', (Procedure.restoreText text).run s = .error e s' ↔
      (Snapshot.ofText? text = none ∧ e = .malformedSnapshot ∧ s' = s ∨
        ∃ snapshot, Snapshot.ofText? text = some snapshot ∧
          (Procedure.restore snapshot).run s = .error e s')) ∧
    (∀ name e s', (Procedure.readRegister name).run s = .error e s' ↔
      (s.config.isa.layout.register? name = none ∧ e = .unknownRegister name) ∧ s' = s) ∧
    (∀ name value name' s',
      (Procedure.writeRegister name value).run s = .error (.unknownRegister name') s' ↔
        s.config.isa.layout.register? name = none ∧ name' = name ∧ s' = s) ∧
    (∀ action, (s.answer action).refused = true → s.act action = s) ∧
    (∀ actions, s.acts (s.accepted actions) = s.acts actions) ∧
    (∀ source, (Procedure.load source).after s = s.act (.load source)) ∧
    (∀ snapshot, (Procedure.restore snapshot).after s = s.act (.restore snapshot)) ∧
    (∀ text, (Procedure.restoreText text).after s = (s.restoreText text).toOption.getD s) ∧
    ∀ name value,
      (Procedure.writeRegister name value).after s = s.act (.writeRegister name value) := by
  refine ⟨?load, ?restore, ?text, ?read, ?write, fun _ => act_of_refused, acts_accepted s,
    (Procedure.after_load · s), (Procedure.after_restore · s), (Procedure.after_restoreText · s),
    (Procedure.after_writeRegister · · s)⟩
  case load =>
    intro source diagnostics s'
    rw [← load_eq_error, Procedure.run_load]
    cases s.load source <;> simp [eq_comm]
  case restore =>
    intro snapshot e s'
    rw [← restore_eq_error, Procedure.run_restore]
    cases s.restore snapshot <;> simp [eq_comm]
  case text =>
    intro text e s'
    unfold Procedure.restoreText
    cases Snapshot.ofText? text with
    | some snapshot => simp
    | none =>
      show EStateM.Result.error Error.malformedSnapshot s = .error e s' ↔ _
      simp [eq_comm]
  case read =>
    intro name e s'
    rw [← readRegister_eq_error, Procedure.run_readRegister]
    cases s.readRegister name <;> simp [eq_comm]
  case write =>
    intro name value name' s'
    rw [← writeRegister_eq_unknown, Procedure.run_writeRegister]
    rcases s.writeRegister name value with ⟨written, _ | _⟩ <;> simp [and_comm]

/-- A machine that has printed and halted is neither loaded with an unknown instruction nor restored
from a snapshot whose first memory is full and whose second is one byte short, nor is a register `Q`
written. -/
theorem refusals_change_nothing_short :
    let s := (ofConfig {}).acts [.writeData 0 72, .step]
    let snapshot := { s.snapshot with data := s.snapshot.data.drop 1 }
    s.machine.output = "H\n" ∧ s.machine.state = .halted ∧ s.steps = 1 ∧
      (Procedure.load "FOO").run s = .error [⟨1, .unknownInstruction "FOO".toList⟩] s ∧
      (Procedure.restore snapshot).run s = .error (.badMemory 255) s ∧
      (Procedure.restoreText "[]").run s = .error .malformedSnapshot s ∧
      (Procedure.writeRegister "Q".toList 1).run s = .error (.unknownRegister "Q".toList) s ∧
      s.act (.restore snapshot) = s := by
  intro s snapshot
  have hisa : s.config.isa = .cdc8512 := by rw [acts_config]; rfl
  obtain ⟨hload, hrestore, htext, -, hwrite, hact, -⟩ := refusals_change_nothing s
  have hinstructions : snapshot.instructions.length = 256 := Bank.length_toList _
  have hdata : snapshot.data.length = 255 := by
    show (s.machine.data.toList.drop 1).length = 255
    rw [List.length_drop, Bank.length_toList]
  have hshort : s.restore snapshot = .error (.badMemory 255) :=
    restore_eq_error.mpr (.inr (.inr ⟨rfl, hinstructions, by rw [hdata]; decide, by rw [hdata]⟩))
  refine ⟨by decide +kernel, by decide +kernel, by decide +kernel, ?_, ?_, ?_, ?_, ?_⟩
  · refine (hload _ _ _).mpr ⟨?_, rfl⟩
    rw [hisa]
    decide +kernel
  · exact (hrestore _ _ _).mpr ⟨restore_eq_error.mp hshort, rfl⟩
  · exact (htext _ _ _).mpr (.inl ⟨by decide +kernel, rfl, rfl⟩)
  · refine (hwrite _ _ _ _).mpr ⟨?_, rfl, rfl⟩
    rw [hisa]
    decide
  · refine hact _ ?_
    simp only [answer, hshort]
    rfl

end Octet.Session
