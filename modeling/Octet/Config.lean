import Octet.Isa
import Octet.Json.Shape

/-!
# Configurations

A session is set up by a `Config`: the instruction set, the period of the clock, the most steps of a
run, and what is kept of the trace. In JSON every field may be missing, and then has its default; a
period of zero is read like any other and refused afterwards.
-/

namespace Octet

/-- The settings of a session. -/
structure Config where
  isa : Isa := .cdc8512
  /-- The period of the clock in milliseconds. -/
  clockPeriod : Nat := 500
  /-- The most steps of a run that is not given a number. -/
  maxSteps : Nat := 10000
  /-- Whether a trace is kept. -/
  trace : Bool := true
  /-- The most entries of the trace, any number if there is no limit. -/
  traceLimit : Option Nat := some 10000
  deriving DecidableEq

namespace Config

instance : Inhabited Config := ⟨{}⟩

/-- Numbers have to be below this. -/
def numberBound : Nat := Nat.pow 2 64

/-- What is wrong with a configuration. -/
inductive Error where
  /-- The text is no JSON, or not of the shape of a configuration. -/
  | malformed
  | zeroClockPeriod
  deriving DecidableEq

/-- Refuses a period of zero. -/
def validate (config : Config) : Except Error Config :=
  if config.clockPeriod = 0 then .error .zeroClockPeriod else .ok config

/-! ## JSON -/

/-- The names of the fields, in order. -/
def fieldNames : List String :=
  ["isa", "clock_period_ms", "max_steps", "trace", "trace_limit"]

/-- The instruction sets under their names. -/
def isaOfJson? (v : Json) : Option Isa :=
  v.choice? (Isa.all.map fun isa => (isa.name, isa))

/-- A number, or `null` for none. -/
def limitOfJson? : Json → Option (Option Nat)
  | .null => some none
  | v => (v.nat? numberBound).map some

/-- The value of a field, the default if it is missing. -/
def fieldOr {α : Type} (default : α) (read : Json → Option α) : Option Json → Option α
  | none => some default
  | some v => read v

/-- The configuration that a JSON value holds. -/
def ofJson? (v : Json) : Option Config := do
  match ← v.fields? fieldNames with
  | [isa, clockPeriod, maxSteps, trace, traceLimit] =>
    let default : Config := {}
    let isa ← fieldOr default.isa isaOfJson? isa
    let clockPeriod ← fieldOr default.clockPeriod (·.nat? numberBound) clockPeriod
    let maxSteps ← fieldOr default.maxSteps (·.nat? numberBound) maxSteps
    let trace ← fieldOr default.trace (·.bool?) trace
    let traceLimit ← fieldOr default.traceLimit limitOfJson? traceLimit
    return { isa, clockPeriod, maxSteps, trace, traceLimit }
  | _ => none

/-- The configuration in a text. -/
def ofText (text : String) : Except Error Config :=
  match (Json.ofText? text).bind ofJson? with
  | some config => config.validate
  | none => .error .malformed

/-- The configuration as a JSON value. -/
def toJson (config : Config) : Json :=
  .record [("isa", .name config.isa.name), ("clock_period_ms", .nat config.clockPeriod),
    ("max_steps", .nat config.maxSteps), ("trace", .bool config.trace),
    ("trace_limit", (config.traceLimit.map Json.nat).getD .null)]

/-! ## Description -/

/-- The configuration, for a log. -/
def describe (config : Config) : String :=
  let limit := match config.traceLimit with
    | some n => s!"Some({n})"
    | none => "None"
  Text.record "SimConfig" [("isa", config.isa.describe),
    ("clock_period_ms", toString config.clockPeriod), ("max_steps", toString config.maxSteps),
    ("trace", toString config.trace), ("trace_limit", limit)]

end Config

end Octet
