import Octet.Clock
import Octet.CommandLine.Arguments
import Octet.CommandLine.Help
import Octet.Session.Listing

/-!
# Running from the command line

One run of the command: settings are put together from the configuration file and the arguments, the
source file is read and assembled, and the program is listed, run up to the limit, or run by a clock
to its end. `run` gives what is printed and the number that the command ends with; files come to it
as a function from their names to their texts.
-/

namespace Octet.CommandLine

/-- The texts of files. There is none for a name under which nothing can be read. -/
abbrev Files := String → Option String

/-- What keeps a program from being run. -/
inductive Failure where
  /-- There is no text under this name. -/
  | unreadable (file : String)
  | config (error : Config.Error)
  | assembly (diagnostics : List Assembly.Diagnostic)
  deriving DecidableEq

/-- The wording of a failure. -/
def Failure.message : Failure → String
  | unreadable file => s!"IO error: cannot read {file}"
  | config .malformed => "config error: malformed configuration"
  | config .zeroClockPeriod => "clock period must be at least 1 ms"
  | assembly diagnostics => "assembly failed:\n" ++ Assembly.report diagnostics

/-- What is said beside the output. -/
inductive Complaint where
  | usage
  | failure (failure : Failure)
  /-- The program ran into a fault. -/
  | fault (fault : Fault)
  deriving DecidableEq

/-- The wording of a complaint. -/
def Complaint.message : Complaint → String
  | usage => usageText
  | failure f => f.message
  | fault f => "error: " ++ f.message

/-- What a run of the command comes to. -/
structure Outcome where
  /-- The number that the command ends with. -/
  code : UInt8
  output : String
  complaint : Option Complaint := none
  deriving DecidableEq

/-- Each line with its end. -/
def unlines (lines : List String) : String :=
  String.join (lines.map (· ++ "\n"))

/-! ## Settings -/

/-- The configuration of the named file, or the default one. -/
def baseConfig (files : Files) (a : Arguments) : Except Failure Config :=
  match a.config with
  | none => .ok {}
  | some file =>
    match files file with
    | some text => (Config.ofText text).mapError .config
    | none => .error (.unreadable file)

/-- The configuration with what the arguments say in place of its own. A trace is kept if either
asks for it. -/
def override (a : Arguments) (config : Config) : Config :=
  { config with
    isa := a.isa.getD config.isa
    maxSteps := a.maxSteps.getD config.maxSteps
    clockPeriod := a.clock.getD config.clockPeriod
    trace := config.trace || a.trace }

/-- The settings of a run. -/
def settings (files : Files) (a : Arguments) : Except Failure Config := do
  let config ← baseConfig files a
  (override a config).validate.mapError .config

/-! ## The run -/

/-- An entry of the trace beside the registers after it. -/
def traceLine (layout : RegisterLayout) (entry : Entry) : String :=
  Text.padEnd 24 entry.render ++ " " ++ entry.registers.render layout

/-- What is reported of a session after its run. -/
def report (a : Arguments) (s : Session) : Outcome :=
  let layout := s.config.isa.layout
  let trace := if a.trace then s.machine.trace.entries.map (traceLine layout) else []
  let dump := if a.dump then [s.snapshot.renderPretty] else []
  { code := s.machine.state.code
    output :=
      unlines trace ++ s.machine.output ++ unlines [s.machine.snapshot.render layout] ++ unlines dump
    complaint := s.machine.state.fault?.map .fault }

/-- The session after the run that the arguments ask for. A clock that never stops comes to
nothing. -/
def execute (a : Arguments) (s : Session) : Option Session :=
  match a.clock with
  | some _ => (Clock.ofSession s).start.1.join.map (·.session)
  | none => some s.runToLimit.1

/-- The session with the program loaded. -/
def prepare (files : Files) (a : Arguments) : Except Failure Session := do
  let config ← settings files a
  match files a.file with
  | none => .error (.unreadable a.file)
  | some source =>
    match (Session.ofConfig config).load source with
    | .ok (session, _) => return session
    | .error diagnostics => .error (.assembly diagnostics)

/-- What the arguments ask for, once they have been read. -/
def perform (files : Files) (a : Arguments) : Option Outcome :=
  match prepare files a with
  | .error f => some { code := 1, output := "", complaint := some (.failure f) }
  | .ok s =>
    if a.disassemble then some { code := 0, output := unlines (s.listing.map (·.render)) }
    else (execute a s).map (report a)

/-- Runs the command. There is no outcome if the program is run by a clock and never stops. -/
def run (files : Files) (arguments : List String) : Option Outcome :=
  match Arguments.read arguments with
  | .ok a => perform files a
  | .error .usage => some { code := 2, output := "", complaint := some .usage }
  | .error .version => some { code := 0, output := unlines [versionText] }
  | .error (.help full) => some { code := 0, output := unlines (helpLines full) }

end Octet.CommandLine
