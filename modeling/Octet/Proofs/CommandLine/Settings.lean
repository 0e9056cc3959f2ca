import Octet.CommandLine.Run
import Octet.Proofs.Json.Config

/-!
# The settings of a run

The settings are those of the configuration file, and what the arguments say comes before what the file
says. The period of the clock is looked at twice: in the file as it is read, and in what the file and the
arguments come to. So a period of zero is refused in either place, and an argument does not make up for the
one in the file (`settings_of_zero_period`).

The main statement is `settings_of_file`.
-/

namespace Octet.CommandLine

variable {files : Files} {a : Arguments} {file text : String} {v : Json} {config : Config}

/-- A file is refused if the configuration in it has a period of zero. -/
theorem baseConfig_of_file (hname : a.config = some file) (htext : files file = some text)
    (hjson : Json.ofText? text = some v) (hread : Config.ofJson? v = some config) :
    baseConfig files a = (config.validate).mapError .config := by
  simp only [baseConfig, hname, htext, Config.ofText, hjson, Option.bind_some, hread]

/-- What a file comes to under the arguments. -/
theorem settings_of_config (hname : a.config = some file) (htext : files file = some text)
    (hjson : Json.ofText? text = some v) (hread : Config.ofJson? v = some config) :
    settings files a =
      if config.clockPeriod = 0 ∨ a.clock.getD config.clockPeriod = 0 then
        .error (.config .zeroClockPeriod)
      else .ok (override a config) := by
  have hmerged : (override a config).clockPeriod = a.clock.getD config.clockPeriod := rfl
  unfold settings
  rw [baseConfig_of_file hname htext hjson hread]
  by_cases hfile : config.clockPeriod = 0
  · rw [if_pos (.inl hfile), Config.validate, if_pos hfile]
    rfl
  · rw [Config.validate, if_neg hfile]
    show (override a config).validate.mapError Failure.config = _
    rw [Config.validate, hmerged]
    by_cases hperiod : a.clock.getD config.clockPeriod = 0
    · rw [if_pos hperiod, if_pos (.inr hperiod)]
      rfl
    · rw [if_neg hperiod, if_neg (not_or.mpr ⟨hfile, hperiod⟩)]
      rfl

/-- **Arguments come before the file.** Let the configuration file be one that a configuration is read from.
That has the values of the file, and defaults where it has none. The settings are this configuration with
what the arguments say in place of its own, and with a trace if either asks for it; and they are refused for
a period of zero exactly if the period of the file is zero or the one that it comes to. -/
theorem settings_of_file (hname : a.config = some file) (htext : files file = some text)
    (hjson : Json.ofText? text = some v) (hread : Config.ofJson? v = some config) :
    config.Given v ∧
      (settings files a = .error (.config .zeroClockPeriod) ↔
        config.clockPeriod = 0 ∨ a.clock.getD config.clockPeriod = 0) ∧
      (config.clockPeriod ≠ 0 → a.clock.getD config.clockPeriod ≠ 0 →
        settings files a = .ok
          { isa := a.isa.getD config.isa
            clockPeriod := a.clock.getD config.clockPeriod
            maxSteps := a.maxSteps.getD config.maxSteps
            trace := config.trace || a.trace
            traceLimit := config.traceLimit }) := by
  have hsettings := settings_of_config hname htext hjson hread
  refine ⟨Config.given_of_ofJson? hread, ?_, fun hfile hperiod => ?_⟩
  · rw [hsettings]
    constructor
    · intro hrefused
      by_cases hzero : config.clockPeriod = 0 ∨ a.clock.getD config.clockPeriod = 0
      · exact hzero
      · rw [if_neg hzero] at hrefused
        cases hrefused
    · intro hzero
      exact if_pos hzero
  · rw [hsettings, if_neg (not_or.mpr ⟨hfile, hperiod⟩)]
    rfl

/-- The file says nothing of the period and wants no trace, and the arguments ask for both. -/
theorem settings_of_file_merged :
    let text := "\x7b\"isa\":\"cdc6504\",\"trace\":false,\"max_steps\":5\x7d"
    let files : Files := fun _ => some text
    let a : Arguments := { file := "program", config := some "settings", clock := some 7, trace := true }
    ∃ v, Json.ofText? text = some v ∧
      Config.ofJson? v = some { isa := .cdc6504, trace := false, maxSteps := 5 } ∧
      settings files a = .ok { isa := .cdc6504, clockPeriod := 7, maxSteps := 5 } := by
  intro text files a
  have hread : (Json.ofText? text).bind Config.ofJson? =
      some { isa := .cdc6504, trace := false, maxSteps := 5 } := by decide +kernel
  obtain ⟨v, hjson, hread⟩ := Option.bind_eq_some_iff.mp hread
  have hname : a.config = some "settings" := rfl
  have htext : files "settings" = some text := rfl
  obtain ⟨-, -, hmerged⟩ := settings_of_file hname htext hjson hread
  exact ⟨v, hjson, hread, hmerged (by decide) (by decide)⟩

/-- The file has a period of zero, and the arguments would make it five. The settings are refused all the
same. -/
theorem settings_of_zero_period :
    let text := "\x7b\"clock_period_ms\":0\x7d"
    let files : Files := fun _ => some text
    let a : Arguments := { file := "program", config := some "settings", clock := some 5 }
    let config : Config := { clockPeriod := 0 }
    (Json.ofText? text).bind Config.ofJson? = some config ∧
      ¬ (settings files a = .error (.config .zeroClockPeriod) ↔
        a.clock.getD config.clockPeriod = 0) := by
  intro text files a config
  have hread : (Json.ofText? text).bind Config.ofJson? = some config := by decide +kernel
  obtain ⟨v, hjson, hvalue⟩ := Option.bind_eq_some_iff.mp hread
  have hname : a.config = some "settings" := rfl
  have htext : files "settings" = some text := rfl
  have hrefused : settings files a = .error (.config .zeroClockPeriod) := by
    rw [settings_of_config hname htext hjson hvalue, if_pos (.inl rfl)]
  refine ⟨hread, fun hiff => ?_⟩
  have hperiod : (5 : Nat) = 0 := hiff.mp hrefused
  cases hperiod

end Octet.CommandLine
