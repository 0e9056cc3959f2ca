import Octet.Proofs.Machine.Log
import Octet.Proofs.Session.Action

/-!
# Going on from a snapshot

A session that has been restored from the snapshot of another one goes on as the other does: every
operation has the same answer, the snapshots stay the same, and it prints the same texts. What may
differ is what a snapshot leaves out: the settings, the trace, the texts printed before, the loaded
program and the count of steps. `Session.Echoes` is this relation, `restore_snapshot` gives it at the
start, and `Echoes.act` carries it on.
-/

namespace Octet.Session

/-- Whether an action goes on with the machine as it is, without settings or programs from
elsewhere. -/
def Action.goesOn : Action → Bool
  | step => true
  | run _ => true
  | resume => true
  | forceRunning => true
  | writeRegister .. => true
  | writeData .. => true
  | writeInstruction .. => true
  | load _ => false
  | runToLimit => false
  | restore _ => false
  | reset => false

/-- The sessions have one instruction set, and their machines differ in nothing but the logs, where
the first has printed a text before all that the second has. -/
def Echoes (before : String) (s s' : Session) : Prop :=
  ∃ h : s.config.isa = s'.config.isa, Machine.Echoes before (h ▸ s.machine) s'.machine

variable {s s' : Session} {before : String}

theorem Echoes.snapshot_eq (h : s.Echoes before s') : s.snapshot = s'.snapshot := by
  obtain ⟨⟨isa, _, _, _, _⟩, machine, _, _⟩ := s
  obtain ⟨⟨isa', _, _, _, _⟩, machine', _, _⟩ := s'
  obtain ⟨hisa, hmachine⟩ := h
  obtain rfl : isa = isa' := hisa
  obtain ⟨trace, output, hlog⟩ := hmachine.alike
  obtain rfl : machine = machine'.withLog trace output := hlog
  rfl

theorem Echoes.output_eq (h : s.Echoes before s') :
    s.machine.output = before ++ s'.machine.output := by
  obtain ⟨⟨isa, _, _, _, _⟩, machine, _, _⟩ := s
  obtain ⟨⟨isa', _, _, _, _⟩, machine', _, _⟩ := s'
  obtain ⟨hisa, hmachine⟩ := h
  obtain rfl : isa = isa' := hisa
  exact hmachine.output

/-- The session that is restored from a snapshot goes on as the one that the snapshot was taken of. -/
theorem restore_snapshot (h : s'.config.isa = s.config.isa) :
    ∃ restored, s'.restore s.snapshot = .ok restored ∧ s.Echoes s.machine.output restored := by
  obtain ⟨⟨isa, _, _, _, _⟩, machine, _, _⟩ := s
  obtain ⟨⟨isa', _, _, _, _⟩, machine', _, _⟩ := s'
  obtain rfl : isa' = isa := h
  refine ⟨_, restore_eq_ok.mpr ⟨rfl, machine.instructions, machine.data,
    Bank.ofList?_toList _, Bank.ofList?_toList _, rfl⟩, rfl, ?_, ?_⟩
  · exact ⟨machine.trace, machine.output, rfl⟩
  · exact (String.append_empty).symm

/-- One action on both sessions: the answers are the same, and the sessions go on alike. -/
theorem Echoes.act (h : s.Echoes before s') (action : Action) (hgoes : action.goesOn = true) :
    s.answer action = s'.answer action ∧ (s.act action).Echoes before (s'.act action) := by
  obtain ⟨⟨isa, _, _, _, _⟩, machine, _, _⟩ := s
  obtain ⟨⟨isa', _, _, _, _⟩, machine', _, _⟩ := s'
  obtain ⟨hisa, hmachine⟩ := h
  obtain rfl : isa = isa' := hisa
  have hechoes : machine.Echoes before machine' := hmachine
  cases action with
  | step =>
    simp only [answer, Session.act, step_snd, step_fst]
    exact ⟨congrArg Answer.stepped hechoes.alike.step_snd, rfl, hechoes.step⟩
  | run n =>
    have hrun := hechoes.run n
    have hcount := (hechoes.alike.run n).2
    exact ⟨congrArg₂ Answer.ran hcount hrun.alike.state_eq, rfl, hrun⟩
  | resume =>
    have hresume := hechoes.resume
    have hrunning := congrArg RunState.isRunning hresume.alike.state_eq
    exact ⟨congrArg Answer.resumed hrunning, rfl, hresume⟩
  | forceRunning => exact ⟨rfl, rfl, hechoes.forceRunning⟩
  | writeRegister name value =>
    simp only [answer, Session.act]
    cases hr : isa.layout.register? name with
    | none =>
      rw [writeRegister_of_unknown hr, writeRegister_of_unknown hr]
      exact ⟨rfl, rfl, hechoes⟩
    | some r =>
      have hfault := (hechoes.alike.hostWriteRegister r value).2
      rw [writeRegister_of_known hr, writeRegister_of_known hr]
      refine ⟨?_, rfl, hechoes.hostWriteRegister r value⟩
      exact congrArg (fun fault : Option Fault =>
        Answer.written ((fault.map Error.faulted).elim (.ok ()) .error)) hfault
  | writeData address value => exact ⟨rfl, rfl, hechoes.edit id (·.write address value)⟩
  | writeInstruction address value => exact ⟨rfl, rfl, hechoes.edit (·.write address value) id⟩
  | load source => cases hgoes
  | runToLimit => cases hgoes
  | restore snapshot => cases hgoes
  | reset => cases hgoes

theorem Echoes.acts (h : s.Echoes before s') (actions : List Action)
    (hgoes : ∀ action ∈ actions, action.goesOn = true) :
    (s.acts actions).Echoes before (s'.acts actions) := by
  induction actions generalizing s s' with
  | nil => exact h
  | cons action rest ih =>
    have hfirst := hgoes action List.mem_cons_self
    apply ih (h.act action hfirst).2
    intro other hother
    exact hgoes other (List.mem_cons_of_mem _ hother)

/-- Restoring takes over all that later operations depend on. A snapshot of a session can be restored
in every session of the same instruction set, which then has the same snapshot. Whatever is done to
both from there on has the same answers and leaves them with the same snapshots, and the first has
printed what it had printed when it was saved, and then what the other prints. -/
theorem restored_goes_on (s s' : Session) (hisa : s'.config.isa = s.config.isa) :
    ∃ restored, s'.restore s.snapshot = .ok restored ∧ restored.snapshot = s.snapshot ∧
      ∀ actions : List Action, (∀ action ∈ actions, action.goesOn = true) →
        (s.acts actions).snapshot = (restored.acts actions).snapshot ∧
        (s.acts actions).machine.output =
          s.machine.output ++ (restored.acts actions).machine.output ∧
        ∀ action : Action, action.goesOn = true →
          (s.acts actions).answer action = (restored.acts actions).answer action := by
  obtain ⟨restored, hrestored, hechoes⟩ := restore_snapshot hisa
  refine ⟨restored, hrestored, hechoes.snapshot_eq.symm, ?_⟩
  intro actions hgoes
  have hlater := hechoes.acts actions hgoes
  refine ⟨hlater.snapshot_eq, hlater.output_eq, ?_⟩
  intro action haction
  exact (hlater.act action haction).1

/-- A machine that has halted is saved, goes on elsewhere without a trace, and faults in both places. -/
theorem restored_goes_on_halted :
    let s := (ofConfig {}).acts [.writeData 0 72, .step]
    let s' := ofConfig { trace := false, maxSteps := 3 }
    let actions : List Action := [.resume, .writeInstruction 1 0x80, .writeInstruction 2 40]
    s.machine.output = "H\n" ∧ ∃ restored, s'.restore s.snapshot = .ok restored ∧
      (s.acts actions).snapshot = (restored.acts actions).snapshot ∧
      (s.acts actions).answer .step = (restored.acts actions).answer .step ∧
      (restored.acts (actions ++ [.step])).machine.state = .errored (.addressOutOfRange 1 0 40) := by
  intro s s' actions
  have hsame : s'.config.isa = s.config.isa := rfl
  obtain ⟨restored, hrestored, _, hgoes⟩ := restored_goes_on s s' hsame
  obtain ⟨hsnapshot, _, hanswer⟩ := hgoes actions (by decide)
  refine ⟨by decide +kernel, restored, hrestored, hsnapshot, hanswer .step rfl, ?_⟩
  -- the fault is in the snapshots, which are the same
  obtain ⟨hfaulted, _, _⟩ := hgoes (actions ++ [.step]) (by decide)
  have hstate := congrArg Snapshot.state hfaulted
  refine hstate.symm.trans ?_
  show (s.acts (actions ++ [.step])).machine.state = _
  decide +kernel

end Octet.Session
