import Octet.Proofs.Machine.FlagHistory
import Octet.Proofs.Session.Flags

/-!
# What flags tell of a session

The history of a session since it was reset or loaded is made of what its instructions and the writes
from outside do to flags. Whatever is done in the meantime, the flags are those that this history
leaves behind, and so the last comparison decides about the next jump: `flags_tell_history`.
-/

namespace Octet.Session

open FlagEvent (latest)

/-- Whether an action goes on with the machine as it stands, and does not put another in its place. -/
def Action.keepsMachine : Action → Bool
  | load _ => false
  | step => true
  | run _ => true
  | runToLimit => true
  | resume => true
  | forceRunning => true
  | writeRegister .. => true
  | writeData .. => true
  | writeInstruction .. => true
  | restore _ => false
  | reset => false

/-- What an action adds to the history. -/
def events (s : Session) : Action → List FlagEvent
  | .step => s.machine.stepEvents
  | .run n => s.machine.runEvents n
  | .runToLimit => s.machine.runEvents s.config.maxSteps
  | .writeRegister name value =>
    if (s.config.isa.layout.register? name).isSome then [.wrote value] else []
  | _ => []

/-- What several actions add to the history. -/
def history (s : Session) : List Action → List FlagEvent
  | [] => []
  | action :: rest => s.events action ++ (s.act action).history rest

/-- The session has just been reset, or a program has just been loaded. -/
def JustStarted (s : Session) : Prop :=
  (∃ before : Session, s = before.reset) ∨
    ∃ (before : Session) (source : String) (program : Assembly.Program),
      before.load source = .ok (s, program)

variable {s : Session}

theorem JustStarted.flags_eq (h : s.JustStarted) :
    s.machine.flags = s.config.isa.flagModel.initial := by
  rcases h with ⟨before, rfl⟩ | ⟨before, source, program, hload⟩
  · rfl
  · obtain ⟨_, rfl⟩ := load_eq_ok.mp hload
    rfl

theorem act_flags (s : Session) (action : Action) (h : action.keepsMachine = true) :
    (s.act action).machine.flags = (s.events action).foldl Flags.after s.machine.flags := by
  cases action with
  | step =>
    show s.step.1.machine.flags = _
    rw [step_fst]
    exact Machine.step_flags s.machine
  | run n => exact Machine.run_flags s.machine n
  | runToLimit => exact Machine.run_flags s.machine s.config.maxSteps
  | resume => exact Machine.resume_flags s.machine
  | writeRegister name value =>
    show (s.writeRegister name value).1.machine.flags = _
    cases hname : s.config.isa.layout.register? name with
    | none =>
      rw [writeRegister_of_unknown hname, events, hname]
      rfl
    | some r =>
      rw [writeRegister_of_known hname, events, hname]
      exact Machine.hostWriteRegister_flags s.machine r value
  | forceRunning | writeData | writeInstruction => rfl
  | load | restore | reset => cases h

theorem acts_flags (s : Session) (actions : List Action)
    (h : ∀ action ∈ actions, action.keepsMachine = true) :
    (s.acts actions).machine.flags = (s.history actions).foldl Flags.after s.machine.flags := by
  induction actions generalizing s with
  | nil => rfl
  | cons action rest ih =>
    rw [history, List.foldl_append, ← act_flags s action (h action List.mem_cons_self)]
    exact ih (s.act action) fun other hother => h other (List.mem_cons_of_mem _ hother)

/-- Where no two bytes have been compared, the order is as if two equal ones had been. -/
theorem order_eq (last : Option (UInt8 × UInt8)) :
    (last.elim .eq fun (a, b) => Ord.compare a.toNat b.toNat) =
      Ord.compare (last.getD (0, 0)).1.toNat (last.getD (0, 0)).2.toNat := by
  cases last <;> rfl

/-- **Flags tell the history.** However a session goes on after a reset or a load, its flags are those
that the history leaves behind: the order of the two bytes compared last, and carry, zero and
negative of the last event that has them. So on the CDC8512 the three conditional jumps are taken
exactly if the two bytes compared last were equal, or the first of them less or greater; before any
comparison, two equal bytes stand in for them. -/
theorem flags_tell_history (s : Session) (hs : s.JustStarted) (actions : List Action)
    (hactions : ∀ action ∈ actions, action.keepsMachine = true) :
    let m := (s.acts actions).machine
    m.flags = Flags.ofHistory s.config.isa.flagModel (s.history actions) ∧
    (s.config.isa = .cdc8512 → m.state = .running → ∀ target,
      let last := (latest FlagEvent.compared? (s.history actions)).getD (0, 0)
      (m.fetch.op = .jump .equal target →
        m.step.1.pc = if last.1 = last.2 then target else m.pc + m.fetch.size) ∧
      (m.fetch.op = .jump .less target →
        m.step.1.pc = if last.1 < last.2 then target else m.pc + m.fetch.size) ∧
      (m.fetch.op = .jump .greater target →
        m.step.1.pc = if last.2 < last.1 then target else m.pc + m.fetch.size)) := by
  intro m
  have hflags : m.flags = Flags.ofHistory s.config.isa.flagModel (s.history actions) := by
    rw [← Flags.foldl_after, ← hs.flags_eq]
    exact acts_flags s actions hactions
  refine ⟨hflags, ?_⟩
  intro hisa hrunning target last
  have horder : m.flags = (Flags.comparison .eq).compare last.1 last.2 := by
    rw [hflags, hisa]
    exact congrArg Flags.comparison ((order_eq _).trans (Flags.compare_toNat last.1 last.2))
  have hpc : ∀ condition, m.fetch.op = .jump condition target → m.step.1.pc =
      if ((Flags.comparison .eq).compare last.1 last.2).test condition then target
      else m.pc + m.fetch.size := by
    intro condition hop
    rw [← horder]
    exact Machine.step_pc_of_condition hrunning (by rw [hop]; rfl) (by rw [hop]; rfl)
  obtain ⟨hequal, -, -, hless, -, hgreater, -⟩ :=
    Flags.test_compare (.comparison .eq) last.1 last.2
  refine ⟨fun hop => ?_, fun hop => ?_, fun hop => ?_⟩
  · rw [hpc .equal hop]
    exact if_congr hequal rfl rfl
  · rw [hpc .less hop]
    exact if_congr hless rfl rfl
  · rw [hpc .greater hop]
    exact if_congr hgreater rfl rfl

/-- The program `CMP X0, 7`, `INC X0`, `JL 32`, written from outside and run up to the jump. It is taken
because 0 has been compared with 7, although `X0` has become 9 since. -/
theorem flags_tell_history_less :
    let s := ofConfig { trace := false }
    let actions := [.writeInstruction 0 0x8C, .writeInstruction 1 7, .writeInstruction 2 0x54,
      .writeInstruction 3 0xA1, .writeInstruction 4 32, .run 2, .writeRegister "X0".toList 9]
    let m := (s.acts actions).machine
    s.history actions = [.compared 0 7, .wrote 1, .wrote 9] ∧
      m.flags = .comparison .lt ∧ m.step.1.pc = 32 := by
  intro s actions m
  have hhistory : s.history actions = [.compared 0 7, .wrote 1, .wrote 9] := by decide +kernel
  have hop : m.fetch.op = .jump .less 32 := by decide +kernel
  obtain ⟨hflags, hjumps⟩ := flags_tell_history s (.inl ⟨s, rfl⟩) actions (by decide)
  obtain ⟨-, hless, -⟩ := hjumps rfl (by decide +kernel) 32
  rw [hhistory] at hflags
  have hpc := hless hop
  rw [hhistory] at hpc
  refine ⟨hhistory, ?_, ?_⟩
  · rw [hflags]
    decide
  · rw [hpc]
    decide

end Octet.Session
