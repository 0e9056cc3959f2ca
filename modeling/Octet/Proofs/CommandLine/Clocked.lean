import Octet.CommandLine.Run
import Octet.Proofs.Clock.Join
import Octet.Proofs.CommandLine.Arguments
import Octet.Proofs.Session.TraceUnread

/-!
# Two ways to run a program

A program that stops is run up to the limit or by a clock, and comes to the same. The clock is another
owner of the session and ticks on until it has stopped, but its ticks are the steps of a run
(`Clock.join_start`), and the period stands in the settings only, where nothing of the report looks at
it (`Session.withPeriod`).

The main statement is `run_clocked`.
-/

namespace Octet

/-! ## Sessions with another period -/

namespace Session

/-- The session with another period of the clock. -/
def withPeriod (s : Session) (period : Nat) : Session :=
  { s with config := { s.config with clockPeriod := period } }

theorem run_withPeriod (s : Session) (period n : Nat) :
    (s.withPeriod period).run n = ((s.run n).1.withPeriod period, (s.run n).2) := rfl

end Session

namespace CommandLine

variable {files : Files} {a : Arguments} {period : Nat} {s : Session}

/-! ## What the period changes -/

/-- A period of zero is refused when the configuration is read. -/
theorem clockPeriod_of_ofText {text : String} {config : Config} (h : Config.ofText text = .ok config) :
    config.clockPeriod ≠ 0 := by
  unfold Config.ofText at h
  cases hread : (Json.ofText? text).bind Config.ofJson? with
  | none => simp [hread] at h
  | some read =>
    simp only [hread, Config.validate] at h
    split at h
    · cases h
    · next hperiod =>
      cases h
      exact hperiod

/-- The configuration that is started from has a period. -/
theorem clockPeriod_of_baseConfig {config : Config} (h : baseConfig files a = .ok config) :
    config.clockPeriod ≠ 0 := by
  unfold baseConfig at h
  cases hname : a.config with
  | none =>
    rw [hname] at h
    cases h
    decide
  | some name =>
    cases htext : files name with
    | none => simp [hname, htext] at h
    | some text =>
      cases hread : Config.ofText text with
      | error e => simp [hname, htext, hread, Except.mapError] at h
      | ok read =>
        simp only [hname, htext, hread, Except.mapError, Except.ok.injEq] at h
        subst h
        exact clockPeriod_of_ofText hread

theorem settings_clocked (hclock : a.clock = none) (hperiod : period ≠ 0) :
    settings files { a with clock := some period } =
      (settings files a).map fun config => { config with clockPeriod := period } := by
  show (baseConfig files a >>= _) = (baseConfig files a >>= _).map _
  cases hbase : baseConfig files a with
  | error failure => rfl
  | ok config =>
    have hzero : (override a config).clockPeriod ≠ 0 := by
      simpa [override, hclock] using clockPeriod_of_baseConfig hbase
    have hvalid : (override a config).validate = .ok (override a config) := if_neg hzero
    have hvalid' : (override { a with clock := some period } config).validate =
        .ok { override a config with clockPeriod := period } := if_neg hperiod
    simp only [bind, Except.bind, hvalid, hvalid', Except.mapError, Except.map]

theorem prepare_clocked (hclock : a.clock = none) (hperiod : period ≠ 0) :
    prepare files { a with clock := some period } =
      (prepare files a).map (·.withPeriod period) := by
  unfold prepare
  rw [settings_clocked hclock hperiod]
  cases settings files a with
  | error failure => rfl
  | ok config =>
    simp only [Except.map, bind, Except.bind]
    cases files a.file with
    | none => rfl
    | some source =>
      simp only [Session.load_eq_map, Session.ofConfig]
      cases Assembly.assemble config.isa source <;> rfl

/-- A program that has been loaded is running. -/
theorem isRunning_of_prepare (h : prepare files a = .ok s) : s.isRunning = true := by
  simp only [prepare, bind, Except.bind] at h
  cases hsettings : settings files a with
  | error failure => rw [hsettings] at h; cases h
  | ok config =>
    rw [hsettings] at h
    cases hsource : files a.file with
    | none => simp [hsource] at h
    | some source =>
      simp only [hsource, Session.load_eq_map] at h
      cases hassemble : Assembly.assemble config.isa source with
      | error diagnostics => simp [Session.ofConfig, hassemble, Except.map] at h
      | ok program =>
        simp only [Session.ofConfig, hassemble, Except.map, pure, Except.pure,
          Except.ok.injEq] at h
        subst h
        rfl

theorem perform_clocked (hclock : a.clock = none) (hperiod : period ≠ 0)
    (hstops : ∀ s, prepare files a = .ok s →
      ∃ n ≤ s.config.maxSteps, (s.run n).1.isRunning = false) :
    perform files { a with clock := some period } = perform files a := by
  unfold perform
  rw [prepare_clocked hclock hperiod]
  cases hprepare : prepare files a with
  | error failure => rfl
  | ok s =>
    show (if a.disassemble then _ else _) = if a.disassemble then _ else _
    split
    · rfl
    · obtain ⟨n, hle, hstopped⟩ := hstops s hprepare
      have hstart : (Clock.ofSession (s.withPeriod period)).start.2 = .ok true := by
        have hrunning : s.isRunning = true := isRunning_of_prepare hprepare
        exact Clock.start_eq_ok_true_iff.mpr ⟨hperiod, rfl, hrunning, rfl⟩
      have hexecute : execute { a with clock := some period } (s.withPeriod period) =
          some ((s.run n).1.withPeriod period) := by
        have hrun := Session.run_withPeriod s period n
        have hended : ((s.withPeriod period).run n).1.isRunning = false := by rw [hrun]; exact hstopped
        have hjoin := Clock.join_start hstart hended
        rw [show (Clock.ofSession (s.withPeriod period)).session = s.withPeriod period from rfl, hrun]
          at hjoin
        exact hjoin
      have hlimit : execute a s = some (s.run n).1 := by
        simp only [execute, hclock]
        exact congrArg some (Session.run_of_stopped hstopped hle)
      rw [hlimit]
      show Option.map _ (execute { a with clock := some period } (s.withPeriod period)) = _
      rw [hexecute]
      rfl

/-- Without a clock there always is an outcome. -/
theorem perform_isSome (files : Files) (hclock : a.clock = none) : (perform files a).isSome := by
  unfold perform
  cases prepare files a with
  | error failure => rfl
  | ok s =>
    simp only [execute, hclock]
    split <;> rfl

/-- **A clock changes nothing.** Take arguments without a period, and let the program that they load stop
running within the limit of steps; or let it not be loaded at all, since something is wrong with the
configuration, a file or the source. Then the run has an outcome, and with a period that is not zero it
has the same one: the number that the command ends with, the output with the trace and the state as they
are asked for, and what is said beside it. This is so for a period in front of the arguments and for any
other command line that is read as they are but for the period. -/
theorem run_clocked {files : Files} {arguments : List String} {a : Arguments} {written : String}
    {period : Nat} (hread : Arguments.read arguments = .ok a) (hclock : a.clock = none)
    (hwritten : number? written = some period) (hperiod : period ≠ 0)
    (hstops : ∀ s, prepare files a = .ok s →
      ∃ n ≤ s.config.maxSteps, (s.run n).1.isRunning = false) :
    ∃ outcome, run files arguments = some outcome ∧
      run files ("--clock-ms" :: written :: arguments) = some outcome ∧
      ∀ clocked, Arguments.read clocked = .ok { a with clock := some period } →
        run files clocked = some outcome := by
  obtain ⟨outcome, houtcome⟩ := Option.isSome_iff_exists.mp (perform_isSome files hclock)
  have hclocked : ∀ clocked, Arguments.read clocked = .ok { a with clock := some period } →
      run files clocked = some outcome := by
    intro clocked hclocked
    simp only [run, hclocked]
    rw [perform_clocked hclock hperiod hstops, houtcome]
  refine ⟨outcome, ?_, hclocked _ (read_clock_ms hread hclock hwritten), hclocked⟩
  simp only [run, hread]
  exact houtcome

/-- The program counts down from two and then runs into a fault: 200 is no address. -/
theorem run_clocked_faulted :
    let files : Files := fun _ => some "SET X0, 2\nDEC X0\nSET A1, 200\nHALT"
    let arguments := ["program", "--trace", "--dump"]
    ∃ outcome, run files arguments = some outcome ∧
      run files ("--clock-ms" :: "7" :: arguments) = some outcome ∧
      run files ["--clock-ms=7", "--trace", "--dump", "--", "program"] = some outcome ∧
      outcome.code = 3 := by
  intro files arguments
  let a : Arguments := { file := "program", trace := true, dump := true }
  have hread : Arguments.read arguments = .ok a := by decide +kernel
  have hstops : ∀ s, prepare files a = .ok s →
      ∃ n ≤ s.config.maxSteps, (s.run n).1.isRunning = false := by
    have hthree : (prepare files a).toOption.all
        (fun s => 3 ≤ s.config.maxSteps ∧ (s.run 3).1.isRunning = false) = true := by decide +kernel
    intro s hprepare
    rw [hprepare] at hthree
    exact ⟨3, of_decide_eq_true hthree⟩
  have hwritten : number? "7" = some 7 := by decide +kernel
  obtain ⟨outcome, hrun, hfront, hclocked⟩ := run_clocked hread rfl hwritten (by decide) hstops
  have hcode : (run files arguments).map (·.code) = some 3 := by decide +kernel
  rw [hrun] at hcode
  exact ⟨outcome, hrun, hfront, hclocked _ (by decide +kernel), Option.some.inj hcode⟩

end CommandLine

end Octet
