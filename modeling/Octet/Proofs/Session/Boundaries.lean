import Octet.Proofs.Machine.Boundaries
import Octet.Proofs.Placement.Boundaries
import Octet.Proofs.Session.Action

/-!
# Programs keep to their lines

A program whose jumps and branches go to labels never runs into the middle of an instruction,
whatever is done to registers and data while it runs. The invariant is that the machine is `Inside`
the boundaries of the program; actions that leave the program alone preserve it.
-/

namespace Octet.Session

open Assembly (IsBoundary TransfersToLabels instructionLines lines start Layout layout_of_assemble)

variable {s : Session} {program : Bank} {B : UInt8 → Prop}

/-- A session whose machine is inside a closed set of addresses stays there under every action that
leaves the program alone. -/
theorem act_inside (hclosed : Closed s.config.isa program B) (h : s.machine.Inside program B)
    (action : Action) (hkeeps : action.keepsProgram = true) :
    (s.act action).machine.Inside program B := by
  cases action with
  | step =>
    show s.step.1.machine.Inside program B
    rw [step_fst]
    exact h.step hclosed
  | run n => exact h.run hclosed n
  | runToLimit => exact h.run hclosed _
  | resume => exact h.resume
  | forceRunning => exact h.forceRunning
  | writeRegister name value =>
    show (s.writeRegister name value).1.machine.Inside program B
    rcases s.writeRegister_fst name value with hwrite | ⟨r, hwrite⟩
    · rw [hwrite]
      exact h
    · rw [hwrite]
      exact h.hostWriteRegister r value
  | writeData address value => exact h.writeData _
  | load source => cases hkeeps
  | writeInstruction address value => cases hkeeps
  | restore snapshot => cases hkeeps
  | reset => cases hkeeps

theorem acts_inside (hclosed : Closed s.config.isa program B) (h : s.machine.Inside program B)
    (actions : List Action) (hkeeps : ∀ action ∈ actions, action.keepsProgram = true) :
    (s.acts actions).config = s.config ∧ (s.acts actions).machine.Inside program B := by
  refine acts_induction (fun s' => s'.config = s.config ∧ s'.machine.Inside program B)
    (fun action => action.keepsProgram = true) ?_ ⟨rfl, h⟩ actions hkeeps
  rintro s' action hkind ⟨hconfig, hinside⟩
  refine ⟨(act_config s' action).trans hconfig, act_inside ?_ hinside action hkind⟩
  rwa [hconfig]

/-- A session that has just been loaded stands at the start of its program. -/
theorem install_inside {source : String} {p : Assembly.Program}
    (h : Layout s.config.isa (lines s.config.isa.commentMarks source.toList) p) :
    (s.install p).machine.Inside p.instructions
      (IsBoundary s.config.isa (lines s.config.isa.commentMarks source.toList) p) := by
  refine ⟨rfl, ?_, nofun⟩
  exact h.isBoundary_start (k := 0) (Nat.zero_le _)

/-- **Programs keep to their lines.** Take a program whose jumps and branches go to labels, load it,
and do anything with it that leaves the instruction memory alone. No unknown instruction is met, and
the program counter stands at the start of an instruction line, or among the zeros behind the
program. An instruction set without address registers does not fault at all. -/
theorem acts_keep_to_lines (s : Session) (source : String) (loaded : Session)
    (p : Assembly.Program) (hload : s.load source = .ok (loaded, p))
    (hlabels : TransfersToLabels s.config.isa (lines s.config.isa.commentMarks source.toList))
    (actions : List Action) (hkeeps : ∀ action ∈ actions, action.keepsProgram = true) :
    let ls := lines s.config.isa.commentMarks source.toList
    let machine := (loaded.acts actions).machine
    (∀ pc opcode, machine.state ≠ .errored (.invalidOpcode pc opcode)) ∧
      ((∃ k line, (instructionLines ls)[k]? = some line ∧
          machine.pc.toNat = start s.config.isa ls k) ∨
        p.length ≤ machine.pc.toNat ∧ machine.instructions.read machine.pc = 0) ∧
      (s.config.isa = .cdc6504 → ∀ fault, machine.state ≠ .errored fault) := by
  obtain ⟨hassemble, rfl⟩ := load_eq_ok.mp hload
  have hlayout := layout_of_assemble hassemble
  obtain ⟨hconfig, hinside⟩ :=
    acts_inside (s := s.install p) (hlayout.closed hlabels) (install_inside hlayout) actions hkeeps
  intro ls machine
  refine ⟨?_, ?_, ?_⟩
  · intro pc opcode hstate
    obtain ⟨_, _, _, _, _, _, hfault⟩ := hinside.fault _ hstate
    cases hfault
  · rcases hinside.pc with hline | hbehind
    · exact .inl hline
    · refine .inr ⟨hbehind, ?_⟩
      show machine.instructions.read machine.pc = 0
      rw [hinside.instructions]
      exact hlayout.zero_behind _ hbehind
  · intro hisa fault hstate
    obtain ⟨_, limit, _, _, hlimit, _⟩ := hinside.fault _ hstate
    have hnone : Isa.cdc6504.layout.addressLimit = none := rfl
    rw [hconfig, show (s.install p).config = s.config from rfl, hisa, hnone] at hlimit
    cases hlimit

/-- A count is started, changed from outside, and gone on with. -/
theorem acts_keep_to_lines_countdown :
    ∃ loaded p, (ofConfig { isa := .cdc6504 }).load Assembly.countdown = .ok (loaded, p) ∧
      ∀ fault, (loaded.acts [.run 5, .writeRegister "X".toList 7, .forceRunning, .step]).machine.state
        ≠ .errored fault := by
  obtain ⟨p, hp⟩ := Assembly.assemble_countdown
  have hload := load_eq_ok (s := ofConfig { isa := .cdc6504 }).mpr ⟨hp, rfl⟩
  refine ⟨_, p, hload, ?_⟩
  exact (acts_keep_to_lines (ofConfig { isa := .cdc6504 }) Assembly.countdown _ p hload
    (by decide) [.run 5, .writeRegister "X".toList 7, .forceRunning, .step] (by decide)).2.2 rfl

end Octet.Session
