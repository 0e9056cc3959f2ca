import Octet.Proofs.Session.Action

/-!
# Run states

Executing instructions takes a run state to a few others only: a running machine halts or stops with
a fault, and what has halted or faulted stays so (`RunState.Settles`). Editing memories changes
nothing about the state. Writing a register from outside does what an instruction would have done to
it: where an address register is then out of range the machine has faulted, in whatever state it was
before.

So the state is told by the last register that has been written from outside with a fault, and it
settles where there is none. The main statement is `state_transitions`.
-/

namespace Octet

/-- What becomes of a run state while instructions are executed. -/
inductive RunState.Settles : RunState → RunState → Prop where
  | stays (state : RunState) : Settles state state
  | halts : Settles .running .halted
  | faults (fault : Fault) : Settles .running (.errored fault)

namespace RunState.Settles

variable {first second third : RunState}

theorem trans (h : first.Settles second) (h' : second.Settles third) : first.Settles third := by
  cases h with
  | stays => exact h'
  | halts =>
    cases h'
    exact .halts
  | faults fault =>
    cases h'
    exact .faults fault

/-- A fault that has been recorded stays. -/
theorem eq_errored {fault : Fault} (h : Settles (.errored fault) second) :
    second = .errored fault := by
  cases h
  rfl

end RunState.Settles

namespace Machine

variable {isa : Isa}

theorem step_settles (m : Machine isa) : m.state.Settles m.step.1.state := by
  cases hstate : m.state with
  | running =>
    have hrunning : m.state.isRunning = true := by rw [hstate]; rfl
    rcases step_cases hrunning with ⟨_, h⟩ | ⟨_, _, _, h⟩ | ⟨_, _, h⟩ | ⟨fault, _, h, _⟩
    · exact h ▸ .stays _
    · exact h ▸ .stays _
    · exact h ▸ .halts
    · exact h ▸ .faults fault
  | halted | errored =>
    rw [step_of_not_running (by rw [hstate]; rfl), hstate]
    exact .stays _

theorem run_settles (m : Machine isa) (n : Nat) : m.state.Settles (m.run n).1.state :=
  run_induction (P := fun m' => m.state.Settles m'.state) (fun m' h => h.trans m'.step_settles)
    (.stays _) n

theorem resume_state (m : Machine isa) :
    m.resume.state = m.state ∨ m.state = .halted ∧ m.resume.state = .running := by
  unfold resume
  cases h : m.state with
  | halted => exact .inr ⟨rfl, rfl⟩
  | running | errored => exact .inl h

end Machine

namespace Session

variable {s : Session}

/-- Whether an action is none of those that set the run state. -/
def Action.leavesState : Action → Bool
  | step => true
  | run _ => true
  | runToLimit => true
  | writeRegister .. => true
  | writeData .. => true
  | writeInstruction .. => true
  | load _ => false
  | resume => false
  | forceRunning => false
  | restore _ => false
  | reset => false

/-- The fault that a register has been written with. -/
def Answer.fault? : Answer → Option Fault
  | .written (.error (.faulted fault)) => some fault
  | _ => none

/-- The fault that a register has been written with the last time that one has been. -/
def lastFault? (s : Session) : List Action → Option Fault
  | [] => none
  | action :: rest => ((s.act action).lastFault? rest).or (s.answer action).fault?

/-! ## One action -/

/-- A write from outside answers the fault of the write at the program counter. -/
theorem fault?_writeRegister (s : Session) (name : Token) (value : UInt8) :
    (s.answer (.writeRegister name value)).fault? =
      (s.config.isa.layout.register? name).bind fun r =>
        (s.machine.writeRegister r value s.machine.pc).2 := by
  simp only [answer]
  cases hname : s.config.isa.layout.register? name with
  | none =>
    rw [writeRegister_of_unknown hname]
    rfl
  | some r =>
    rw [writeRegister_of_known hname, Machine.hostWriteRegister_eq, Option.bind_some]
    cases (s.machine.writeRegister r value s.machine.pc).2 <;> rfl

/-- The fault that is answered becomes the run state. -/
theorem writeRegister_state (s : Session) (name : Token) (value : UInt8) :
    (s.act (.writeRegister name value)).machine.state =
      ((s.answer (.writeRegister name value)).fault?.map RunState.errored).getD s.machine.state := by
  rw [fault?_writeRegister]
  simp only [act]
  cases hname : s.config.isa.layout.register? name with
  | none =>
    rw [writeRegister_of_unknown hname]
    rfl
  | some r =>
    rw [writeRegister_of_known hname, Machine.hostWriteRegister_eq]
    rfl

/-- Only a write from outside answers a fault, and it is one of the range of the addresses. -/
theorem rangeFault_of_answer {action : Action} {fault : Fault}
    (h : (s.answer action).fault? = some fault) :
    (∃ name value, action = .writeRegister name value) ∧
      Machine.RangeFault s.config.isa s.machine.pc fault := by
  cases action with
  | writeRegister name value =>
    rw [fault?_writeRegister] at h
    obtain ⟨r, _, hfault⟩ := Option.bind_eq_some_iff.mp h
    exact ⟨⟨name, value, rfl⟩, Machine.writeRegister_fault hfault⟩
  | _ => cases h

/-- An action that answers no fault lets the state settle. -/
theorem act_settles {action : Action} (hleaves : action.leavesState = true)
    (h : (s.answer action).fault? = none) :
    s.machine.state.Settles (s.act action).machine.state := by
  cases action with
  | step =>
    simp only [act]
    rw [step_fst]
    exact s.machine.step_settles
  | run n => exact s.machine.run_settles n
  | runToLimit => exact s.machine.run_settles s.config.maxSteps
  | writeRegister name value =>
    rw [writeRegister_state, h]
    exact .stays _
  | writeData | writeInstruction => exact .stays _
  | load | resume | forceRunning | restore | reset => cases hleaves

theorem act_errored {action : Action} {fault : Fault} (h : (s.answer action).fault? = some fault) :
    (s.act action).machine.state = .errored fault := by
  obtain ⟨⟨name, value, rfl⟩, _⟩ := rangeFault_of_answer h
  rw [writeRegister_state, h]
  rfl

/-! ## Several actions -/

/-- The last fault of a write from outside is the state of the machine, and the state settles where
there is none. -/
theorem acts_state {actions : List Action}
    (hleaves : ∀ action ∈ actions, action.leavesState = true) :
    (s.lastFault? actions = none → s.machine.state.Settles (s.acts actions).machine.state) ∧
      ∀ fault, s.lastFault? actions = some fault →
        (s.acts actions).machine.state = .errored fault := by
  induction actions generalizing s with
  | nil =>
    refine ⟨fun _ => .stays _, ?_⟩
    intro fault h
    cases h
  | cons action rest ih =>
    have hrest : s.acts (action :: rest) = (s.act action).acts rest := rfl
    obtain ⟨hsettles, herrored⟩ := ih (s := s.act action) fun other hother =>
      hleaves other (List.mem_cons_of_mem _ hother)
    rw [hrest, lastFault?]
    cases hlater : (s.act action).lastFault? rest with
    | some fault => exact ⟨nofun, fun _ h => Option.some.inj h ▸ herrored fault hlater⟩
    | none =>
      rw [Option.none_or]
      constructor
      · intro h
        exact (act_settles (hleaves action List.mem_cons_self) h).trans (hsettles hlater)
      · intro fault h
        -- the fault of this action is the last one, and stays
        have hstate := hsettles hlater
        rw [act_errored h] at hstate
        exact hstate.eq_errored

/-- A CDC6504 has no limit for its registers, so that nothing written from outside faults. -/
theorem lastFault?_cdc6504 (hisa : s.config.isa = .cdc6504) (actions : List Action) :
    s.lastFault? actions = none := by
  induction actions generalizing s with
  | nil => rfl
  | cons action rest ih =>
    rw [lastFault?, ih ((congrArg Config.isa (act_config s action)).trans hisa), Option.none_or]
    cases hfault : (s.answer action).fault? with
    | none => rfl
    | some fault =>
      obtain ⟨_, limit, _, _, hlimit, _⟩ := rangeFault_of_answer hfault
      rw [hisa] at hlimit
      cases hlimit

/-- Apart from the actions that set it, the run state of a machine stays as it is, or goes from
running to halted or to a fault. The one exception is a register that is written from outside and
leaves an address register out of range: the machine then is in the fault that is answered, in
whatever state it was. Over any number of such actions the state settles in the same way if there is
no such write, as on a CDC6504 there never is, and otherwise is the fault of the last one. Resuming
changes the state of a halted machine only. -/
theorem state_transitions (s : Session) :
    (∀ action : Action, action.leavesState = true →
      ((s.answer action).fault? = none → s.machine.state.Settles (s.act action).machine.state) ∧
      ∀ fault, (s.answer action).fault? = some fault →
        (s.act action).machine.state = .errored fault ∧
        (∃ name value, action = .writeRegister name value) ∧
        Machine.RangeFault s.config.isa s.machine.pc fault) ∧
    (∀ actions : List Action, (∀ action ∈ actions, action.leavesState = true) →
      (s.lastFault? actions = none → s.machine.state.Settles (s.acts actions).machine.state) ∧
      (s.config.isa = .cdc6504 → s.machine.state.Settles (s.acts actions).machine.state) ∧
      ∀ fault, s.lastFault? actions = some fault →
        (s.acts actions).machine.state = .errored fault) ∧
    (s.resume.machine.state = s.machine.state ∨
      s.machine.state = .halted ∧ s.resume.machine.state = .running) := by
  refine ⟨?one, ?several, s.machine.resume_state⟩
  case one =>
    intro action hleaves
    refine ⟨act_settles hleaves, ?_⟩
    intro fault hfault
    exact ⟨act_errored hfault, rangeFault_of_answer hfault⟩
  case several =>
    intro actions hleaves
    obtain ⟨hsettles, herrored⟩ := acts_state (s := s) hleaves
    exact ⟨hsettles, fun hisa => hsettles (lastFault?_cdc6504 hisa actions), herrored⟩

/-- A machine adds 128 to `A0` and stays in this fault, until `A0` is written from outside with 32. -/
theorem state_transitions_sum :
    let s := (ofConfig {}).acts [.writeInstruction 0 0x90, .writeInstruction 1 0x80]
    let actions : List Action := [.step, .writeData 0 72, .run 3]
    let write : Action := .writeRegister "A0".toList 32
    s.lastFault? actions = none ∧ s.machine.state.Settles (s.acts actions).machine.state ∧
      (s.acts actions).machine.state = .errored (.addressOutOfRange 0 0 128) ∧
      s.lastFault? (actions ++ [write]) = some (.addressOutOfRange 0 0 32) ∧
      (s.acts (actions ++ [write])).machine.state = .errored (.addressOutOfRange 0 0 32) := by
  intro s actions write
  obtain ⟨-, hseveral, -⟩ := state_transitions s
  have hnone : s.lastFault? actions = none := by decide +kernel
  have hlast : s.lastFault? (actions ++ [write]) = some (.addressOutOfRange 0 0 32) := by
    decide +kernel
  have hsettles := (hseveral actions (by decide)).1 hnone
  have herrored := (hseveral (actions ++ [write]) (by decide)).2.2 _ hlast
  exact ⟨hnone, hsettles, by decide +kernel, hlast, herrored⟩

/-- A machine that has halted faults when `A0` is written from outside with 40, and when it is written
with 41 this fault is recorded in place of the first one. -/
theorem halted_then_errored :
    let halted := (ofConfig {}).act .step
    let edit (value : UInt8) : Action := .writeRegister "A0".toList value
    (edit 40).leavesState = true ∧ halted.machine.state = .halted ∧
      (halted.act (edit 40)).machine.state = .errored (.addressOutOfRange 1 0 40) ∧
      ¬ halted.machine.state.Settles (halted.act (edit 40)).machine.state ∧
      (halted.acts [edit 40, edit 41]).machine.state = .errored (.addressOutOfRange 1 0 41) := by
  intro halted edit
  have hhalted : halted.machine.state = .halted := by decide +kernel
  have herrored : (halted.act (edit 40)).machine.state = .errored (.addressOutOfRange 1 0 40) := by
    decide +kernel
  refine ⟨rfl, hhalted, herrored, ?_, by decide +kernel⟩
  rw [hhalted, herrored]
  intro h
  cases h

end Session

end Octet
