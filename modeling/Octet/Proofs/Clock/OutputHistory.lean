import Octet.Proofs.Clock.TraceHistory
import Octet.Proofs.Session.OutputHistory

/-!
# What a clock prints

A tick prints what a step prints, and nothing else that is done to a clock prints anything. So however a
clock and its session are operated, the output tells of every instruction that has halted since the
machine last started afresh: `output_tells_halts`.
-/

namespace Octet.Clock

/-- **The output tells the halts.** Let a clock and its session be operated in any order from the start
on. Then the output is made of one line for each instruction that has halted since the last reset and
the last program or snapshot that was taken over, by a step, by a run or by a tick, in this order: the
characters of the data memory below it up to the first zero, or all of them if there is none, and a line
feed. Since this is so after any operations, nothing but these instructions ever adds to the output. -/
theorem output_tells_halts (config : Config) (period : Nat) (hosted : Bool)
    (operations : List Operation) (c' : Clock) :
    let c : Clock := { session := Session.ofConfig config, period, hosted }
    let history := c.session.outputHistory (c.sessionHistory operations)
    c.operates operations = some c' →
      c'.session.machine.output = String.join ((OutputEvent.halts history).map Bank.line) := by
  intro c history h
  have hstart : c.session.Accounted [] := Session.accounted_ofConfig config
  have hend := Session.acts_accounted hstart (c.sessionHistory operations)
  rw [List.nil_append, ← session_operates h] at hend
  exact hend

/-- The program `HALT`, `INC X0`, `HALT` has printed `Hi` before it is loaded once more. Then it prints
`ab` in a step, and `aZ` at a tick, since the data memory is changed after it has been resumed. -/
theorem output_tells_halts_resumed :
    let c := ofSession (Session.ofConfig { clockPeriod := 5 })
    let operations : List Operation := [.act (.load "HALT\nDATA 'Hi'"), .act .step,
      .act (.load "HALT\nINC X0\nHALT\nDATA 'ab'"), .act .step, .act .resume,
      .act (.writeData 1 90), .start, .advance 20]
    ∃ c', c.operates operations = some c' ∧ c'.session.machine.output = "ab\naZ\n" := by
  intro c operations
  have hsome : (c.operates operations).isSome = true := by decide +kernel
  obtain ⟨c', h⟩ := Option.isSome_iff_exists.mp hsome
  have houtput := output_tells_halts { clockPeriod := 5 } 5 true operations c' h
  refine ⟨c', h, ?_⟩
  rw [houtput]
  decide +kernel

end Octet.Clock
