import Octet.Proofs.Session.FreshStart
import Octet.Proofs.Session.InPlace
import Octet.Proofs.Session.Restore
import Octet.Session.Listing

/-!
# Nothing reads the trace

Some settings of a session are about its trace and its clock, and decide what is recorded and when, and
nothing else. Two sessions that differ in these settings and in their traces are `Twins`: every action
has the same answer on both and leaves them twins (`Twins.act`), and all that can be looked at is the
same (`Twins.view_eq`). So nobody who does not look at the trace can tell whether it is kept:
`trace_is_not_read`.
-/

namespace Octet

/-- A listing depends on nothing but the instruction memory. -/
theorem Machine.Alike.listing_eq {isa : Isa} {m m' : Machine isa} (h : m.Alike m') (finish : Nat) :
    m.listing finish = m'.listing finish := by
  obtain ⟨trace, output, rfl⟩ := h
  have hfrom : ∀ fuel start,
      (m'.withLog trace output).listingFrom finish fuel start = m'.listingFrom finish fuel start := by
    intro fuel
    induction fuel with
    | zero => exact fun _ => rfl
    | succ fuel ih =>
      intro start
      simp only [listingFrom, ih]
      rfl
  exact hfrom finish 0

namespace Session

/-! ## What can be looked at -/

/-- All that can be seen of a session, apart from its settings and its trace. -/
structure View where
  snapshot : Snapshot
  output : String
  steps : Nat
  program : Option Assembly.Program
  listing : List ListingLine
  /-- The value of the register with a name. -/
  register : Token → Except Error UInt8

def view (s : Session) : View where
  snapshot := s.snapshot
  output := s.machine.output
  steps := s.steps
  program := s.program
  listing := s.listing
  register := s.readRegister

/-- The session with other settings of trace and clock, and with another trace. -/
def retraced (s : Session) (period : Nat) (trace : Bool) (limit : Option Nat) (kept : Trace) :
    Session :=
  { s with
    config := { s.config with clockPeriod := period, trace, traceLimit := limit }
    machine := { s.machine with trace := kept } }

/-- The sessions differ in nothing but their traces and the settings of trace and clock. -/
structure Twins (s s' : Session) : Prop where
  echoes : s.Echoes "" s'
  maxSteps : s.config.maxSteps = s'.config.maxSteps
  program : s.program = s'.program
  steps : s.steps = s'.steps

variable {s s' : Session}

theorem twins_retraced (s : Session) (period : Nat) (trace : Bool) (limit : Option Nat)
    (kept : Trace) : s.Twins (s.retraced period trace limit kept) where
  echoes := ⟨rfl, ⟨s.machine.trace, s.machine.output, rfl⟩, String.empty_append.symm⟩
  maxSteps := rfl
  program := rfl
  steps := rfl

theorem Twins.isa (h : s.Twins s') : s.config.isa = s'.config.isa :=
  h.echoes.elim fun hisa _ => hisa

theorem Twins.exists_retraced (h : s.Twins s') :
    ∃ period trace limit kept, s' = s.retraced period trace limit kept := by
  have houtput := h.echoes.output_eq
  rw [String.empty_append] at houtput
  obtain ⟨⟨hisa, hmachine⟩, hmax, hprogram, hsteps⟩ := h
  obtain ⟨⟨isa, _, maxSteps, _, _⟩, machine, program, steps⟩ := s
  obtain ⟨⟨isa', period, maxSteps', trace, limit⟩, machine', program', steps'⟩ := s'
  obtain rfl : isa = isa' := hisa
  obtain rfl : maxSteps = maxSteps' := hmax
  obtain rfl : program = program' := hprogram
  obtain rfl : steps = steps' := hsteps
  obtain ⟨_, output, hlog⟩ := hmachine.alike
  obtain rfl : machine = machine'.withLog _ output := hlog
  obtain rfl : output = machine'.output := houtput
  exact ⟨period, trace, limit, machine'.trace, rfl⟩

theorem Twins.view_eq (h : s.Twins s') : s.view = s'.view := by
  obtain ⟨period, trace, limit, kept, rfl⟩ := h.exists_retraced
  have hlisting : (s.retraced period trace limit kept).listing = s.listing :=
    Machine.Alike.listing_eq (Machine.Alike.of_withLog kept s.machine.output s.machine) _
  unfold view
  rw [hlisting]
  rfl

/-! ## Starting afresh -/

theorem twins_ofConfig (config : Config) (period : Nat) (trace : Bool) (limit : Option Nat) :
    (ofConfig config).Twins
      (ofConfig { config with clockPeriod := period, trace, traceLimit := limit }) :=
  twins_retraced (ofConfig config) period trace limit { enabled := trace, limit }

theorem Twins.reset (h : s.Twins s') : s.reset.Twins s'.reset := by
  obtain ⟨period, trace, limit, kept, rfl⟩ := h.exists_retraced
  exact twins_retraced s.reset period trace limit kept.clear

theorem Twins.install (h : s.Twins s') (program : Assembly.Program) :
    (s.install program).Twins (s'.install program) := by
  obtain ⟨period, trace, limit, kept, rfl⟩ := h.exists_retraced
  exact twins_retraced (s.install program) period trace limit kept.clear

theorem Twins.restore (h : s.Twins s') (snapshot : Snapshot) :
    s.answer (.restore snapshot) = s'.answer (.restore snapshot) ∧
      (s.act (.restore snapshot)).Twins (s'.act (.restore snapshot)) := by
  simp only [answer, act]
  cases hrestore : s.restore snapshot with
  | ok restored =>
    obtain ⟨hisa, instructions, data, hinstructions, hdata, rfl⟩ := restore_eq_ok.mp hrestore
    obtain ⟨period, trace, limit, kept, rfl⟩ := h.exists_retraced
    rw [restore_eq_ok (s := s.retraced period trace limit kept).mpr
      ⟨hisa, instructions, data, hinstructions, hdata, rfl⟩]
    exact ⟨rfl, twins_retraced _ period trace limit kept.clear⟩
  | error e =>
    have herror := restore_eq_error.mp hrestore
    rw [h.isa] at herror
    rw [restore_eq_error.mpr herror]
    exact ⟨rfl, h⟩

theorem load_eq_map (s : Session) (source : String) :
    s.load source = (Assembly.assemble s.config.isa source).map fun p => (s.install p, p) := by
  unfold load
  cases Assembly.assemble s.config.isa source <;> rfl

/-! ## Any action -/

/-- The number of instructions that an answer says have been executed. -/
def Answer.executed : Answer → Nat
  | .stepped entry => if entry.isSome then 1 else 0
  | .ran executed _ => executed
  | _ => 0

/-- An action that goes on with the machine keeps the program and counts what it answers. -/
theorem act_count {action : Action} (h : action.goesOn = true) :
    (s.act action).program = s.program ∧
      (s.act action).steps = s.steps + (s.answer action).executed := by
  cases action with
  | step =>
    simp only [Session.act, answer, step_fst, step_snd]
    exact ⟨trivial, rfl⟩
  | writeRegister name value =>
    simp only [Session.act]
    rcases s.writeRegister_fst name value with hwrite | ⟨r, hwrite⟩ <;> rw [hwrite] <;> exact ⟨rfl, rfl⟩
  | run | resume | forceRunning | writeData | writeInstruction => exact ⟨rfl, rfl⟩
  | load | runToLimit | restore | reset => cases h

theorem Twins.act_of_goesOn (h : s.Twins s') {action : Action} (hgoes : action.goesOn = true) :
    s.answer action = s'.answer action ∧ (s.act action).Twins (s'.act action) := by
  obtain ⟨hanswer, hechoes⟩ := h.echoes.act action hgoes
  obtain ⟨hprogram, hsteps⟩ := act_count (s := s) hgoes
  obtain ⟨hprogram', hsteps'⟩ := act_count (s := s') hgoes
  refine ⟨hanswer, hechoes, ?_, ?_, ?_⟩
  · rw [act_config, act_config, h.maxSteps]
  · rw [hprogram, hprogram', h.program]
  · rw [hsteps, hsteps', hanswer, h.steps]

theorem Twins.act (h : s.Twins s') (action : Action) :
    s.answer action = s'.answer action ∧ (s.act action).Twins (s'.act action) := by
  cases action with
  | load source =>
    simp only [answer, Session.act, load_eq_map, h.isa]
    cases Assembly.assemble s'.config.isa source with
    | ok program => exact ⟨rfl, h.install program⟩
    | error diagnostics => exact ⟨rfl, h⟩
  | runToLimit =>
    show s.answer (.run s.config.maxSteps) = s'.answer (.run s'.config.maxSteps) ∧
      (s.act (.run s.config.maxSteps)).Twins (s'.act (.run s'.config.maxSteps))
    rw [h.maxSteps]
    exact h.act_of_goesOn rfl
  | restore snapshot => exact h.restore snapshot
  | reset => exact ⟨rfl, h.reset⟩
  | step | run | resume | forceRunning | writeRegister | writeData | writeInstruction =>
    exact h.act_of_goesOn rfl

theorem Twins.acts (h : s.Twins s') (actions : List Action) :
    s.answers actions = s'.answers actions ∧ (s.acts actions).Twins (s'.acts actions) := by
  induction actions generalizing s s' with
  | nil => exact ⟨rfl, h⟩
  | cons action rest ih =>
    obtain ⟨hanswer, hact⟩ := h.act action
    obtain ⟨hanswers, hacts⟩ := ih hact
    refine ⟨?_, hacts⟩
    rw [answers, answers, hanswer, hanswers]

/-- **Nothing reads the trace.** Let two sessions be set up alike but for the settings of trace and clock,
and let the same be done to both. Every action has the same answer, also the entry that a step answers
where no trace is kept. And after each of them all that can be seen is the same but the trace and the
settings: what a snapshot holds, the output, the count of steps, the program, the listing, and the
registers by their names. -/
theorem trace_is_not_read (config : Config) (period : Nat) (trace : Bool) (limit : Option Nat)
    (actions : List Action) :
    let s := ofConfig config
    let s' := ofConfig { config with clockPeriod := period, trace, traceLimit := limit }
    s.answers actions = s'.answers actions ∧
      ∀ n, (s.acts (actions.take n)).view = (s'.acts (actions.take n)).view := by
  intro s s'
  have htwins : s.Twins s' := twins_ofConfig config period trace limit
  refine ⟨(htwins.acts actions).1, ?_⟩
  intro n
  exact (htwins.acts (actions.take n)).2.view_eq

end Session

end Octet
