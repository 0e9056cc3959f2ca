import Octet.Proofs.Machine.Run

/-!
# Trace and output are written only

Trace and output of a machine are a log: no instruction reads them. Two machines that are `Alike` but
for their logs therefore stay alike under everything that is done to both, with the same results.
What a step prints is told by the rest of the machine as well (`printed`), so that the two outputs
grow by the same texts. `Echoes` says of two machines that they are alike and how their outputs
differ.
-/

namespace Octet.Machine

variable {isa : Isa} {m m' : Machine isa} {i : Instruction} {r : Reg} {v : UInt8}
  {before : String}

/-- The machine with another trace and another output. -/
def withLog (m : Machine isa) (trace : Trace) (output : String) : Machine isa :=
  { m with trace, output }

/-! ## The log is not read -/

section

variable (trace : Trace) (output : String)

theorem couple_withLog (m : Machine isa) (r : Reg) :
    (m.withLog trace output).couple r = (m.couple r).withLog trace output := by
  simp only [couple, withLog]
  cases isa.layout.role r <;> rfl

theorem writeRegister_withLog (m : Machine isa) (r : Reg) (v pc : UInt8) :
    (m.withLog trace output).writeRegister r v pc =
      ((m.writeRegister r v pc).1.withLog trace output, (m.writeRegister r v pc).2) := by
  let noted : Machine isa := { m.setRegister r v with flags := m.flags.noteResult v }
  have hcouple := couple_withLog trace output noted r
  have hfault := congrArg (fun after => rangeFault? after pc) hcouple
  exact Prod.ext hcouple hfault

theorem writeBack_withLog (m : Machine isa) (r : Reg) (v : UInt8) :
    (m.withLog trace output).writeBack r v =
      ((m.writeBack r v).1.withLog trace output, (m.writeBack r v).2) := by
  unfold writeBack
  rw [writeRegister_withLog, show (m.withLog trace output).pc = m.pc from rfl]
  rcases m.writeRegister r v m.pc with ⟨after, fault⟩
  cases fault <;> rfl

theorem execute_withLog (m : Machine isa) (i : Instruction) :
    (m.withLog trace output).execute i =
      ((m.execute i).1.withLog trace output, (m.execute i).2) := by
  unfold execute
  cases i.op with
  | load | clear | inc | dec | transfer => exact writeBack_withLog trace output m _ _
  | add | sub => exact writeBack_withLog trace output { m with flags := _ } _ _
  | _ => rfl

end

/-- What the next step adds to the output: the text in data memory if it halts. -/
def printed (m : Machine isa) : String :=
  if m.state.isRunning ∧ m.fetch.op = .halt then m.data.text 0 ++ "\n" else ""

theorem follow_withLog (trace : Trace) (output : String) (m : Machine isa) (i : Instruction)
    (flow : Flow) :
    (m.withLog trace output).follow i flow =
      (m.follow i flow).withLog trace
        (if flow = .halt then output ++ m.data.text 0 ++ "\n" else output) := by
  cases flow <;> rfl

/-- Exactly the instruction that halts makes the flow halt, and it changes nothing before. -/
theorem execute_halt_iff : (m.execute i).2 = .halt ↔ i.op = .halt := by
  constructor
  · intro h
    have hflow := execute_flow m i
    rw [h] at hflow
    cases hflow with
    | halt hop => exact hop
  · intro h
    simp [execute, h]

/-- A step is the same whatever the log is, and what it prints does not depend on the log. -/
theorem step_withLog (trace : Trace) (output : String) (m : Machine isa) :
    ∃ trace', (m.withLog trace output).step =
      (m.step.1.withLog trace' (output ++ m.printed), m.step.2) := by
  by_cases h : m.state.isRunning
  · have hlog : (m.withLog trace output).state.isRunning = true := h
    have hfetch : (m.withLog trace output).fetch = m.fetch := rfl
    have hexecute := execute_withLog trace output m m.fetch
    -- only an instruction that halts appends to the output, and it leaves the data as they were
    have hprinted : (if (m.execute m.fetch).2 = .halt
        then output ++ (m.execute m.fetch).1.data.text 0 ++ "\n" else output) =
          output ++ m.printed := by
      unfold printed
      by_cases hop : m.fetch.op = .halt
      · have hsame : m.execute m.fetch = (m, .halt) := by simp [execute, hop]
        rw [hsame, if_pos rfl, if_pos ⟨h, hop⟩, String.append_assoc]
      · rw [if_neg (mt execute_halt_iff.mp hop), if_neg (fun hboth => hop hboth.2),
          String.append_empty]
    simp only [step, h, hlog, hfetch, hexecute, if_true, follow_withLog, hprinted]
    exact ⟨_, rfl⟩
  · have hstopped : m.state.isRunning = false := by simpa using h
    refine ⟨trace, ?_⟩
    rw [step_of_not_running hstopped, step_of_not_running (m := m.withLog trace output) hstopped]
    simp [printed, hstopped]

/-- The output grows by what the step prints. -/
theorem step_output (m : Machine isa) : m.step.1.output = m.output ++ m.printed := by
  obtain ⟨trace, hstep⟩ := step_withLog m.trace m.output m
  have hsame : m.step = (m.step.1.withLog trace (m.output ++ m.printed), m.step.2) := hstep
  rw [hsame]
  rfl

/-! ## Machines that are alike -/

/-- The machines differ in nothing but their logs. -/
def Alike (m m' : Machine isa) : Prop :=
  ∃ trace output, m = m'.withLog trace output

namespace Alike

theorem of_withLog (trace : Trace) (output : String) (m : Machine isa) :
    (m.withLog trace output).Alike m :=
  ⟨trace, output, rfl⟩

theorem state_eq (h : m.Alike m') : m.state = m'.state := by
  obtain ⟨trace, output, rfl⟩ := h
  rfl

theorem printed_eq (h : m.Alike m') : m.printed = m'.printed := by
  obtain ⟨trace, output, rfl⟩ := h
  rfl

theorem step_fst (h : m.Alike m') : m.step.1.Alike m'.step.1 := by
  obtain ⟨trace, output, rfl⟩ := h
  obtain ⟨trace', hstep⟩ := step_withLog trace output m'
  rw [hstep]
  exact of_withLog _ _ _

theorem step_snd (h : m.Alike m') : m.step.2 = m'.step.2 := by
  obtain ⟨trace, output, rfl⟩ := h
  obtain ⟨trace', hstep⟩ := step_withLog trace output m'
  rw [hstep]

theorem run (h : m.Alike m') (n : Nat) :
    (m.run n).1.Alike (m'.run n).1 ∧ (m.run n).2 = (m'.run n).2 :=
  run_induction₂ (fun _ _ => state_eq) (fun _ _ => step_fst) h n

theorem hostWriteRegister (h : m.Alike m') (r : Reg) (v : UInt8) :
    (m.hostWriteRegister r v).1.Alike (m'.hostWriteRegister r v).1 ∧
      (m.hostWriteRegister r v).2 = (m'.hostWriteRegister r v).2 := by
  obtain ⟨trace, output, rfl⟩ := h
  unfold Machine.hostWriteRegister
  rw [writeRegister_withLog, show (m'.withLog trace output).pc = m'.pc from rfl]
  rcases m'.writeRegister r v m'.pc with ⟨after, fault⟩
  cases fault with
  | none => exact ⟨of_withLog _ _ _, rfl⟩
  | some fault => exact ⟨of_withLog _ _ { after with state := .errored fault }, rfl⟩

theorem resume (h : m.Alike m') : m.resume.Alike m'.resume := by
  obtain ⟨trace, output, rfl⟩ := h
  unfold Machine.resume
  rw [show (m'.withLog trace output).state = m'.state from rfl]
  cases m'.state with
  | halted => exact of_withLog _ _ { m' with state := .running }
  | running | errored => exact of_withLog _ _ m'

end Alike

/-! ## Outputs of machines that are alike -/

theorem hostWriteRegister_output (m : Machine isa) (r : Reg) (v : UInt8) :
    (m.hostWriteRegister r v).1.output = m.output := by
  rw [hostWriteRegister_eq]
  exact (writeRegister_sameControl m r v m.pc).output

theorem resume_output (m : Machine isa) : m.resume.output = m.output := by
  unfold resume
  cases m.state <;> rfl

/-- The machines are alike, and the first has printed a text before all that the second has. -/
structure Echoes (before : String) (m m' : Machine isa) : Prop where
  alike : m.Alike m'
  output : m.output = before ++ m'.output

namespace Echoes

theorem step (h : m.Echoes before m') : m.step.1.Echoes before m'.step.1 := by
  refine ⟨h.alike.step_fst, ?_⟩
  rw [step_output, step_output, h.output, h.alike.printed_eq, String.append_assoc]

theorem run (h : m.Echoes before m') (n : Nat) : (m.run n).1.Echoes before (m'.run n).1 :=
  (run_induction₂ (fun _ _ hm => hm.alike.state_eq) (fun _ _ => step) h n).1

theorem hostWriteRegister (h : m.Echoes before m') (r : Reg) (v : UInt8) :
    (m.hostWriteRegister r v).1.Echoes before (m'.hostWriteRegister r v).1 := by
  refine ⟨(h.alike.hostWriteRegister r v).1, ?_⟩
  rw [hostWriteRegister_output, hostWriteRegister_output, h.output]

theorem resume (h : m.Echoes before m') : m.resume.Echoes before m'.resume := by
  refine ⟨h.alike.resume, ?_⟩
  rw [resume_output, resume_output, h.output]

theorem forceRunning (h : m.Echoes before m') : m.forceRunning.Echoes before m'.forceRunning := by
  obtain ⟨⟨trace, output, rfl⟩, houtput⟩ := h
  exact ⟨Alike.of_withLog _ _ m'.forceRunning, houtput⟩

/-- The same change to the memories of both. -/
theorem edit (h : m.Echoes before m') (f g : Bank → Bank) :
    ({ m with instructions := f m.instructions, data := g m.data } : Machine isa).Echoes before
      { m' with instructions := f m'.instructions, data := g m'.data } := by
  obtain ⟨⟨trace, output, rfl⟩, houtput⟩ := h
  refine ⟨?_, houtput⟩
  exact Alike.of_withLog trace output
    { m' with instructions := f m'.instructions, data := g m'.data }

end Echoes

end Octet.Machine
