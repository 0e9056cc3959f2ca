import Octet.Proofs.Clock.Advance
import Octet.Proofs.Machine.Recurrence

/-!
# Joining a clock

A clock that is joined ticks until it stops by itself, and `join` gives up after `stateBound` ticks.
As there are no more states than that which a machine can be in while it runs, it gives up on clocks
only that never stop: joining is letting time pass until the clock has stopped
(`join_eq_some_iff`). A clock that is joined right after its start runs its session to the end
(`join_start`).
-/

namespace Octet.Clock

variable {c c' : Clock} {s : Session}

/-- The bound counts the configurations of a machine. -/
theorem card_configuration : Fintype.card Machine.Configuration = stateBound := by
  rw [Fintype.card_prod, Fintype.card_prod, Fintype.card_prod, Fintype.card_fun, Fintype.card_fun,
    Fintype.card_fin, Fintype.card_fin, Fintype.card_fin]
  delta stateBound
  -- this holds of any number of values, and the power of this one is not to be evaluated
  generalize 256 = values
  show _ = values ^ (values + 8 + 1) * 16
  rw [Nat.pow_add, Nat.pow_add, Nat.pow_one]
  simp only [Nat.mul_assoc]

/-- A session that ticks as often as there are configurations ticks forever. -/
theorem ticks_live_forever {bound : Nat} (hbound : Fintype.card Machine.Configuration ≤ bound)
    (h : (ticks s bound).2 = true) (n : Nat) : (ticks s n).2 = true := by
  have htick : (tick s).2 = true := by
    rw [← ticks_one]
    exact ticks_live_of_le (Nat.le_trans Fintype.card_pos hbound) h
  cases hrunning : s.isRunning with
  | false =>
    rw [tick_of_not_running hrunning] at htick
    cases htick
  | true =>
    rw [ticks_eq_run hrunning] at h ⊢
    exact Machine.running_forever hbound h n

/-- Ticks that come to an end come to one end. -/
theorem ticks_eq_of_not_live {n k : Nat} (hn : (ticks s n).2 = false)
    (hk : (ticks s k).2 = false) : ticks s n = ticks s k := by
  rw [← ticks_add_of_not_live hn k, ← ticks_add_of_not_live hk n, Nat.add_comm]

theorem finishWithin_eq (s : Session) (n : Nat) :
    finishWithin s n = if (ticks s n).2 then none else some (ticks s n).1 := by
  induction n generalizing s with
  | zero => rfl
  | succ n ih =>
    rcases htick : tick s with ⟨next, _ | _⟩
    · simp [finishWithin, ticks, htick]
    · simp only [finishWithin, ticks, htick]
      exact ih next

/-- Joining a clock is letting time pass until it has stopped. -/
theorem join_eq_some_iff (h : c.Sound) :
    c.join = some c' ↔ ∃ time, (c.advance time).isRunning = false ∧ c.advance time = c' := by
  cases hwait : c.wait with
  | none =>
    have hrunning : c.isRunning = false := by simp [isRunning, hwait]
    have hjoin : c.join = some c := by simp [join, hrunning]
    rw [hjoin]
    constructor
    · intro heq
      refine ⟨0, ?_, ?_⟩
      · rw [advance_of_stopped hwait, hrunning]
      · rw [advance_of_stopped hwait]
        exact Option.some.inj heq
    · rintro ⟨time, _, rfl⟩
      rw [advance_of_stopped hwait]
  | some wait =>
    obtain ⟨hpos, hle⟩ := h wait hwait
    have hperiod := Nat.lt_of_lt_of_le hpos hle
    have hrunning : c.isRunning = true := by simp [isRunning, hwait]
    have hjoin : c.join = if (ticks c.session stateBound).2 then none
        else some { c with session := (ticks c.session stateBound).1, wait := none } := by
      simp only [join, hrunning, if_true, finishWithin_eq]
      cases (ticks c.session stateBound).2 <;> rfl
    rw [hjoin]
    constructor
    · intro heq
      cases hlive : (ticks c.session stateBound).2 with
      | true => simp [hlive] at heq
      | false =>
        -- so much time that the clock could tick once more
        have hmore := ticks_add_of_not_live hlive 1
        have hadvance := advance_due hwait (stateBound * c.period)
        rw [Nat.mul_div_cancel _ hperiod, hmore, hlive] at hadvance
        rw [hlive] at heq
        refine ⟨wait + stateBound * c.period, ?_, ?_⟩
        · rw [hadvance]
          rfl
        · rw [hadvance]
          exact Option.some.inj heq
    · rintro ⟨time, hstopped, rfl⟩
      by_cases hlt : time < wait
      · rw [advance_of_lt hwait hlt] at hstopped
        cases hstopped
      · obtain ⟨late, rfl⟩ := Nat.le.dest (Nat.le_of_not_lt hlt)
        rw [advance_due hwait] at hstopped ⊢
        cases hlive : (ticks c.session (late / c.period + 1)).2 with
        | true => simp [isRunning, hlive] at hstopped
        | false =>
          have hend : (ticks c.session stateBound).2 = false := by
            cases hforever : (ticks c.session stateBound).2 with
            | false => rfl
            | true =>
              rw [ticks_live_forever (Nat.le_of_eq card_configuration) hforever] at hlive
              cases hlive
          rw [ticks_eq_of_not_live hlive hend, hend]
          rfl

/-! ## Clocks that have just been started -/

theorem sound_start (h : c.start.2 = .ok true) : c.start.1.Sound := by
  have hrun := runFor_start h
  have hperiod := (start_eq_ok_true_iff.mp h).1
  intro wait hwait
  rw [hrun.wait_eq] at hwait
  split at hwait
  · obtain rfl := Option.some.inj hwait
    rw [Nat.zero_mod, Nat.sub_zero, hrun.period_eq]
    exact ⟨Nat.pos_of_ne_zero hperiod, Nat.le_refl _⟩
  · cases hwait

/-- A clock that has just been started and is joined runs its session to the end, if there is one. -/
theorem join_start {n : Nat} (h : c.start.2 = .ok true)
    (hstopped : (c.session.run n).1.isRunning = false) :
    c.start.1.join.map (·.session) = some (c.session.run n).1 := by
  have hperiod := Nat.pos_of_ne_zero (start_eq_ok_true_iff.mp h).1
  have hrun := (runFor_start h).advance hperiod (n * c.period)
  have hsession : (c.start.1.advance (n * c.period)).session = (c.session.run n).1 := by
    rw [hrun.session_eq, Nat.zero_add, Nat.mul_div_cancel n hperiod]
  have hjoin : c.start.1.join = some (c.start.1.advance (n * c.period)) := by
    refine (join_eq_some_iff (sound_start h)).mpr ⟨n * c.period, ?_, rfl⟩
    rw [hrun.isRunning_eq, hsession, hstopped]
  rw [hjoin, Option.map_some, hsession]

end Octet.Clock
