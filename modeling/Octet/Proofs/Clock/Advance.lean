import Octet.Proofs.Clock.Run

/-!
# Time in pieces

A clock is `Sound` if its next tick is due within one period. Then letting time pass in pieces is
letting it pass at once (`advance_add`), so that what a time does is told by what its smallest pieces
do (`advance_one_of_lt`, `advance_one_of_due`). However long it is, the clock executes at most one
instruction for each period that comes to its end (`session_advance`).
-/

namespace Octet.Clock

variable {c : Clock} {s : Session} {time wait : Nat}

/-! ## Ticks -/

theorem tick_of_not_running (h : s.isRunning = false) : tick s = (s, false) := by
  have hstep : s.step = (s, none) := by
    obtain ⟨config, machine, program, steps⟩ := s
    simp only [Session.step, Machine.step_of_not_running h]
  simp [tick, hstep]

/-- Ticks are a run, also where the machine has been stopped between them. -/
theorem ticks_fst (s : Session) (n : Nat) : (ticks s n).1 = (s.run n).1 := by
  cases hrunning : s.isRunning with
  | true => rw [ticks_eq_run hrunning]
  | false =>
    rw [Session.run_of_not_running hrunning]
    cases n with
    | zero => rfl
    | succ n => simp [ticks, tick_of_not_running hrunning]

theorem ticks_one (s : Session) : ticks s 1 = tick s := by
  unfold ticks
  rcases tick s with ⟨next, _ | _⟩ <;> rfl

/-- If another tick follows the first ones, more ticks go on from there. -/
theorem ticks_add_of_live {n : Nat} (h : (ticks s n).2 = true) (k : Nat) :
    ticks s (n + k) = ticks (ticks s n).1 k := by
  induction n generalizing s with
  | zero =>
    rw [Nat.zero_add]
    rfl
  | succ n ih =>
    rw [Nat.succ_add]
    rcases htick : tick s with ⟨next, _ | _⟩
    · simp [ticks, htick] at h
    · have hnext : (ticks next n).2 = true := by simpa [ticks, htick] using h
      simpa only [ticks, htick] using ih hnext

/-- If none follows, more ticks are the same ones. -/
theorem ticks_add_of_not_live {n : Nat} (h : (ticks s n).2 = false) (k : Nat) :
    ticks s (n + k) = ticks s n := by
  induction n generalizing s with
  | zero => cases h
  | succ n ih =>
    rw [Nat.succ_add]
    rcases htick : tick s with ⟨next, _ | _⟩
    · simp only [ticks, htick]
    · have hnext : (ticks next n).2 = false := by simpa [ticks, htick] using h
      simpa only [ticks, htick] using ih hnext

/-- Where there is another tick, there was one after fewer ticks. -/
theorem ticks_live_of_le {n k : Nat} (hle : k ≤ n) (h : (ticks s n).2 = true) :
    (ticks s k).2 = true := by
  obtain ⟨more, rfl⟩ := Nat.le.dest hle
  cases hlive : (ticks s k).2 with
  | true => rfl
  | false =>
    rw [ticks_add_of_not_live hlive, hlive] at h
    exact h

/-! ## Pieces of time -/

/-- The next tick is due within one period. -/
def Sound (c : Clock) : Prop :=
  ∀ wait, c.wait = some wait → 0 < wait ∧ wait ≤ c.period

theorem advance_of_stopped (h : c.wait = none) : c.advance time = c := by
  simp [advance, h]

theorem advance_zero (h : c.Sound) : c.advance 0 = c := by
  cases hwait : c.wait with
  | none => exact advance_of_stopped hwait
  | some wait =>
    rw [advance_of_lt hwait (h wait hwait).1, Nat.sub_zero, ← hwait]

theorem advance_due (h : c.wait = some wait) (late : Nat) :
    c.advance (wait + late) =
      { c with
        session := (ticks c.session (late / c.period + 1)).1
        wait :=
          if (ticks c.session (late / c.period + 1)).2 then some (c.period - late % c.period)
          else none } := by
  have hdue : ¬ wait + late < wait := Nat.not_lt.mpr (Nat.le_add_right wait late)
  simp [advance, h, hdue]

/-- Letting time pass in two pieces is letting it pass at once. -/
theorem advance_add (h : c.Sound) (a b : Nat) : c.advance (a + b) = (c.advance a).advance b := by
  cases hwait : c.wait with
  | none => rw [advance_of_stopped hwait, advance_of_stopped hwait, advance_of_stopped hwait]
  | some wait =>
    obtain ⟨hpos, hle⟩ := h wait hwait
    have hperiod := Nat.lt_of_lt_of_le hpos hle
    by_cases hfirst : a < wait
    · -- no tick in the first piece, and the second has less to wait for
      rw [advance_of_lt hwait hfirst]
      by_cases hboth : a + b < wait
      · have hsecond : b < wait - a := by omega
        rw [advance_of_lt hwait hboth, advance_of_lt rfl hsecond, Nat.sub_sub]
      · obtain ⟨late, hlate⟩ := Nat.le.dest (Nat.le_of_not_lt hboth)
        have hsecond : b = wait - a + late := by omega
        rw [← hlate, advance_due hwait, hsecond, advance_due rfl]
    · obtain ⟨late, rfl⟩ := Nat.le.dest (Nat.le_of_not_lt hfirst)
      rw [Nat.add_assoc, advance_due hwait, advance_due hwait]
      cases hlive : (ticks c.session (late / c.period + 1)).2 with
      | false =>
        -- the first piece has seen the last tick
        have hcount : late / c.period ≤ (late + b) / c.period :=
          Nat.div_le_div_right (Nat.le_add_right late b)
        obtain ⟨more, hmore⟩ := Nat.le.dest hcount
        rw [← hmore, Nat.add_right_comm, ticks_add_of_not_live hlive, hlive]
        rfl
      | true =>
        -- the second piece begins somewhere between two ticks
        rw [if_pos rfl]
        by_cases hsecond : b < c.period - late % c.period
        · obtain ⟨hdiv, hmod⟩ := add_eq_of_lt hsecond
          rw [hdiv, hmod, hlive, if_pos rfl, advance_of_lt rfl hsecond, Nat.sub_sub]
        · obtain ⟨later, rfl⟩ := Nat.le.dest (Nat.le_of_not_lt hsecond)
          obtain ⟨hdiv, hmod⟩ := add_eq_of_due (t := late) hperiod later
          have hticks := ticks_add_of_live hlive (later / c.period + 1)
          rw [hdiv, hmod, Nat.add_right_comm, hticks, advance_due rfl]

/-- A clock that waits for more than a moment waits for one moment less after it. -/
theorem advance_one_of_lt (h : c.wait = some wait) (hlt : 1 < wait) :
    c.advance 1 = { c with wait := some (wait - 1) } :=
  advance_of_lt h hlt

/-- A clock that waits for one moment ticks after it, and starts to wait again if there will be
another tick. -/
theorem advance_one_of_due (h : c.wait = some 1) :
    c.advance 1 =
      { c with
        session := (tick c.session).1
        wait := if (tick c.session).2 then some c.period else none } := by
  have hadvance := advance_due h 0
  rw [Nat.zero_div, Nat.zero_mod, Nat.zero_add, ticks_one] at hadvance
  exact hadvance

/-! ## How much a clock executes -/

/-- The time since the last tick, or since the start where there has been none. -/
def sinceTick (c : Clock) : Nat :=
  match c.wait with
  | none => 0
  | some wait => c.period - wait

theorem Sound.sinceTick_lt (h : c.Sound) (hlive : c.isRunning = true) : c.sinceTick < c.period := by
  obtain ⟨wait, hwait⟩ := Option.isSome_iff_exists.mp hlive
  obtain ⟨hpos, hle⟩ := h wait hwait
  simp only [sinceTick, hwait]
  exact Nat.sub_lt (Nat.lt_of_lt_of_le hpos hle) hpos

/-- A running clock runs its session for one instruction for each period that comes to its end. -/
theorem session_advance (h : c.Sound) (hlive : c.isRunning = true) (time : Nat) :
    (c.advance time).session = (c.session.run ((c.sinceTick + time) / c.period)).1 := by
  obtain ⟨wait, hwait⟩ := Option.isSome_iff_exists.mp hlive
  obtain ⟨hpos, hle⟩ := h wait hwait
  have hperiod := Nat.lt_of_lt_of_le hpos hle
  simp only [sinceTick, hwait]
  by_cases hlt : time < wait
  · have hsum : c.period - wait + time < c.period := by omega
    rw [advance_of_lt hwait hlt, Nat.div_eq_of_lt hsum]
    rfl
  · obtain ⟨late, rfl⟩ := Nat.le.dest (Nat.le_of_not_lt hlt)
    have hsum : c.period - wait + (wait + late) = late + c.period := by omega
    rw [advance_due hwait, hsum, Nat.add_div_right late hperiod]
    exact ticks_fst c.session _

end Octet.Clock
