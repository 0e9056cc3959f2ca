import Mathlib.Algebra.GroupWithZero.Nat
import Octet.Clock
import Octet.Proofs.Session.Run

/-!
# A clock runs its session

However time is cut into pieces, a clock that has been started for a time `t` has run its session for
`t / period` instructions, and the next one is due when the time reaches the next multiple of the
period. `RunFor` states this of one moment; `RunFor.advance` carries it over one piece of time.

The main statement is `session_advance_eq_run`.
-/

namespace Octet.Clock

variable {c : Clock} {s : Session} {period t time : Nat}

theorem tick_eq_step (h : s.isRunning = true) : tick s = (s.step.1, s.step.1.isRunning) := by
  have hentry := Session.step_isSome h
  unfold tick
  simp [hentry]

/-- Ticks are a run, and they live on as long as it does. -/
theorem ticks_eq_run (h : s.isRunning = true) (n : Nat) :
    ticks s n = ((s.run n).1, (s.run n).1.isRunning) := by
  induction n generalizing s with
  | zero => simp [ticks, h]
  | succ n ih =>
    unfold ticks
    rw [Session.run_succ h, tick_eq_step h]
    cases hnext : s.step.1.isRunning with
    | true => exact ih hnext
    | false => simp [Session.run_of_not_running hnext, hnext]

/-! ## One piece of time -/

theorem advance_of_lt {wait : Nat} (hwait : c.wait = some wait) (h : time < wait) :
    c.advance time = { c with wait := some (wait - time) } := by
  simp [advance, hwait, h]

/-- Once a tick is due, the clock runs its session for one instruction, and for one more for each
further period. -/
theorem advance_of_due {wait : Nat} (hwait : c.wait = some wait)
    (hrunning : c.session.isRunning = true) (late : Nat) :
    c.advance (wait + late) =
      { c with
        session := (c.session.run (late / c.period + 1)).1
        wait :=
          if (c.session.run (late / c.period + 1)).1.isRunning then
            some (c.period - late % c.period)
          else none } := by
  have hdue : ¬ wait + late < wait := Nat.not_lt.mpr (Nat.le_add_right wait late)
  simp [advance, hwait, hdue, ticks_eq_run hrunning]

/-- The clock was started on a session, and since then time `t` has passed. -/
structure RunFor (s : Session) (period t : Nat) (c : Clock) : Prop where
  period_eq : c.period = period
  session_eq : c.session = (s.run (t / period)).1
  wait_eq : c.wait = if c.session.isRunning then some (period - t % period) else none

theorem RunFor.isRunning_eq (h : RunFor s period t c) : c.isRunning = c.session.isRunning := by
  unfold isRunning
  rw [h.wait_eq]
  cases c.session.isRunning <;> rfl

/-- A time that does not reach the next tick is within the same period. -/
theorem add_eq_of_lt (h : time < period - t % period) :
    (t + time) / period = t / period ∧ (t + time) % period = t % period + time := by
  have hrest : t % period + time < period := by omega
  have hsum : t + time = period * (t / period) + (t % period + time) := by
    rw [← Nat.add_assoc, Nat.div_add_mod]
  constructor
  · rw [hsum, Nat.mul_add_div (Nat.zero_lt_of_lt hrest), Nat.div_eq_of_lt hrest, Nat.add_zero]
  · rw [hsum, Nat.mul_add_mod, Nat.mod_eq_of_lt hrest]

/-- A time that goes beyond the next tick is that late in a later period. -/
theorem add_eq_of_due (hperiod : 0 < period) (late : Nat) :
    (t + (period - t % period + late)) / period = t / period + (late / period + 1) ∧
      (t + (period - t % period + late)) % period = late % period := by
  have hmod := Nat.mod_lt t hperiod
  have hdiv := Nat.div_add_mod t period
  have hsum : t + (period - t % period + late) = period * (t / period + 1) + late := by
    rw [Nat.mul_add, Nat.mul_one]
    omega
  constructor
  · rw [hsum, Nat.mul_add_div hperiod]
    omega
  · rw [hsum, Nat.mul_add_mod]

theorem RunFor.advance (hperiod : 0 < period) (h : RunFor s period t c) (time : Nat) :
    RunFor s period (t + time) (c.advance time) := by
  obtain ⟨rfl, hsession, hwait⟩ := h
  by_cases hrunning : c.session.isRunning
  · rw [if_pos hrunning] at hwait
    by_cases hdue : time < c.period - t % c.period
    · obtain ⟨hdiv, hmod⟩ := add_eq_of_lt hdue
      rw [advance_of_lt hwait hdue]
      refine ⟨rfl, ?_, ?_⟩
      · rw [hdiv]
        exact hsession
      · rw [if_pos hrunning, hmod, Nat.sub_sub]
    · obtain ⟨late, rfl⟩ := Nat.le.dest (Nat.le_of_not_lt hdue)
      obtain ⟨hdiv, hmod⟩ := add_eq_of_due (t := t) hperiod late
      rw [advance_of_due hwait hrunning]
      refine ⟨rfl, ?_, ?_⟩
      · rw [hdiv, Session.run_add s (t / c.period), ← hsession]
      · rw [hmod]
  · -- the clock has stopped, and running on changes nothing
    have hstopped : c.session.isRunning = false := by simpa using hrunning
    rw [if_neg hrunning] at hwait
    have hclock : c.advance time = c := by simp [Clock.advance, hwait]
    rw [hclock]
    refine ⟨rfl, ?_, by rw [if_neg hrunning, hwait]⟩
    have hle : t / c.period ≤ (t + time) / c.period := Nat.div_le_div_right (Nat.le_add_right t time)
    obtain ⟨n, hn⟩ := Nat.le.dest hle
    rw [← hn, Session.run_add s (t / c.period), ← hsession, Session.run_of_not_running hstopped]

/-! ## From the start on -/

/-- Starting the clock succeeds exactly if the period is not zero, the machine is running, the clock
is not, and there is something to run it. -/
theorem start_eq_ok_true_iff :
    c.start.2 = .ok true ↔
      c.period ≠ 0 ∧ c.isRunning = false ∧ c.session.isRunning = true ∧ c.hosted = true := by
  unfold start
  by_cases hzero : c.period = 0
  · simp [hzero]
  · -- the guards are looked at in this order
    by_cases hlive : c.isRunning
    · simp [hzero, hlive]
    · by_cases hrunning : c.session.isRunning
      · by_cases hhosted : c.hosted <;> simp [hzero, hlive, hrunning, hhosted]
      · simp [hzero, hlive, hrunning]

theorem runFor_start (h : c.start.2 = .ok true) : RunFor c.session c.period 0 c.start.1 := by
  obtain ⟨hperiod, hlive, hrunning, hhosted⟩ := start_eq_ok_true_iff.mp h
  have hstart : c.start.1 = { c with wait := some c.period } := by
    simp [start, hperiod, hlive, hrunning, hhosted]
  rw [hstart]
  refine ⟨rfl, ?_, ?_⟩
  · simp
  · simp [hrunning]

theorem RunFor.advances (hperiod : 0 < period) (h : RunFor s period t c) (pieces : List Nat) :
    RunFor s period (t + pieces.sum) (pieces.foldl Clock.advance c) := by
  induction pieces generalizing c t with
  | nil => exact h
  | cons time rest ih =>
    rw [List.foldl_cons, List.sum_cons, ← Nat.add_assoc]
    exact ih (h.advance hperiod time)

/-- **A clock runs its session.** A clock with a period can be started while the machine is running
and the clock is not. If time then passes, in pieces of any lengths, the session is the one after a
run of as many instructions as periods have passed, and the clock is running exactly if the machine
is. -/
theorem session_advance_eq_run (c : Clock) :
    (c.start.2 = .ok true ↔
      c.period ≠ 0 ∧ c.isRunning = false ∧ c.session.isRunning = true ∧ c.hosted = true) ∧
    (c.start.2 = .ok true → ∀ pieces : List Nat,
      let after := pieces.foldl Clock.advance c.start.1
      after.session = (c.session.run (pieces.sum / c.period)).1 ∧
        after.isRunning = after.session.isRunning) := by
  refine ⟨start_eq_ok_true_iff, ?_⟩
  -- the start is the moment zero, and each piece of time leads from one moment to a later one
  intro h pieces after
  have hperiod := Nat.pos_of_ne_zero (start_eq_ok_true_iff.mp h).1
  have hrun := (runFor_start h).advances hperiod pieces
  rw [Nat.zero_add] at hrun
  exact ⟨hrun.session_eq, hrun.isRunning_eq⟩

/-- An empty memory halts at the first tick, which is the last one then. -/
theorem session_advance_eq_run_empty :
    let c := ofSession (Session.ofConfig { isa := .cdc6504, clockPeriod := 500 })
    let after := [499, 1, 507].foldl Clock.advance c.start.1
    c.start.2 = .ok true ∧ after.session = (c.session.run 2).1 ∧ after.isRunning = false := by
  intro c after
  have hstart : c.start.2 = .ok true := rfl
  have hticks : [499, 1, 507].sum / 500 = 2 := by decide
  obtain ⟨hsession, hrunning⟩ := (session_advance_eq_run c).2 hstart [499, 1, 507]
  change _ = (c.session.run ([499, 1, 507].sum / 500)).1 at hsession
  rw [hticks] at hsession
  refine ⟨hstart, hsession, ?_⟩
  show after.isRunning = false
  rw [hrunning, hsession]
  show ((Session.ofConfig { isa := .cdc6504, clockPeriod := 500 }).run 2).1.isRunning = false
  decide

end Octet.Clock
