import Octet.Proofs.Clock.Tasks

/-!
# A clockwork does what its clock does

Each operation keeps a clockwork sound and leaves behind what the same operation makes of the clock
that it shows. This is proved for one millisecond first (`Sound.elapse`), and for any time with it.
Joining waits for a certain task, which in a sound clockwork is waiting until nothing is live. A join
that is given up leaves its task live and the handle away (`Abandons.detached`).
-/

namespace Octet.Clockwork

variable {w w' : Clockwork} {c : Clock} {i wait time : Nat}

theorem Sound.of_over (h : ∀ i, w.wait? i = none) : w.Sound := by
  constructor <;> intro i wait hwait <;> rw [h i] at hwait <;> cases hwait

theorem clock_wait_of_over (h : ∀ i, w.wait? i = none) : w.clock.wait = none := by
  show w.handle.bind w.wait? = none
  cases w.handle with
  | none => rfl
  | some i => exact h i

theorem Sound.over (h : w.Sound) (hrunning : w.isRunning = false) (i : Nat) : w.wait? i = none := by
  cases hwait : w.wait? i with
  | none => rfl
  | some wait =>
    have hlive : w.isRunning = true := h.isRunning_iff.mpr ⟨i, isLive_iff.mpr ⟨wait, hwait⟩⟩
    rw [hrunning] at hlive
    cases hlive

/-! ## Time -/

theorem elapse_of_over (h : ∀ i, w.wait? i = none) : w.elapse = w := by
  have hover : ∀ task ∈ w.tasks, task.wait? = none := by
    intro task htask
    obtain ⟨i, hi⟩ := List.mem_iff_getElem?.mp htask
    simpa [wait?, hi] using h i
  simp only [elapse, Task.elapseAll_of_over hover]

/-- The task of the handle is in another state now, and so may be the session. -/
theorem Sound.replace (h : w.Sound) (hhandle : w.handle = some i) (hlt : i < w.tasks.length)
    (session : Session) {task : Task}
    (hdue : ∀ wait, task.wait? = some wait → 0 < wait ∧ wait ≤ w.period) :
    let after : Clockwork := { w with session, tasks := w.tasks.set i task }
    after.Sound ∧ after.clock = { w.clock with session, wait := task.wait? } := by
  intro after
  have hsame : after.wait? i = task.wait? := by
    simp [after, wait?, hlt]
  have hother : ∀ j, i ≠ j → after.wait? j = w.wait? j := by
    intro j hne
    simp [after, wait?, List.getElem?_set_ne hne]
  refine ⟨⟨?_, ?_⟩, ?_⟩
  · intro j wait hwait
    by_cases hj : i = j
    · rw [← hj]
      exact hhandle
    · exact h.held ((hother j hj).symm.trans hwait)
  · intro j wait hwait
    by_cases hj : i = j
    · rw [← hj, hsame] at hwait
      exact hdue wait hwait
    · exact h.due ((hother j hj).symm.trans hwait)
  · have hwait : after.clock.wait = task.wait? := by
      show after.handle.bind after.wait? = _
      rw [show after.handle = some i from hhandle]
      exact hsame
    rw [← hwait]
    rfl

theorem Sound.elapse_of_live (h : w.Sound) (hi : w.tasks[i]? = some (.live wait)) :
    w.elapse =
      { w with
        session := ((Task.live wait).elapse w.period w.session).1
        tasks := w.tasks.set i ((Task.live wait).elapse w.period w.session).2 } := by
  have hone : ∀ j task, w.tasks[j]? = some task → j ≠ i → task.wait? = none := by
    intro j task hj hne
    cases hwait : task.wait? with
    | none => rfl
    | some wait' =>
      rw [Task.wait?_eq_some.mp hwait] at hj
      have hheld := h.held (wait?_eq_some.mpr hj)
      rw [h.held (wait?_eq_some.mpr hi)] at hheld
      exact absurd (Option.some.inj hheld).symm hne
  simp only [elapse, Task.elapseAll_of_one hi hone]

theorem Sound.elapse (h : w.Sound) : w.elapse.Sound ∧ w.elapse.clock = w.clock.advance 1 := by
  cases hwait : w.clock.wait with
  | none =>
    have hrunning : w.isRunning = false := by
      rw [← isRunning_clock]
      simp [Clock.isRunning, hwait]
    rw [elapse_of_over (h.over hrunning), Clock.advance_of_stopped hwait]
    exact ⟨h, rfl⟩
  | some wait =>
    obtain ⟨i, hhandle, hi⟩ := clock_wait_eq_some.mp hwait
    obtain ⟨hpos, hle⟩ := h.due (wait?_eq_some.mpr hi)
    have hlt : i < w.tasks.length := (List.getElem?_eq_some_iff.mp hi).1
    rw [h.elapse_of_live hi]
    by_cases hone : 1 < wait
    · rw [Task.elapse_of_lt hone, Clock.advance_one_of_lt hwait hone]
      apply h.replace hhandle hlt
      intro rest hrest
      obtain rfl : wait - 1 = rest := Option.some.inj hrest
      omega
    · obtain rfl : wait = 1 := by omega
      rw [Task.elapse_of_due, Clock.advance_one_of_due hwait]
      -- the task ticks, which is its last tick or not
      have hsession : w.clock.session = w.session := rfl
      cases hlive : (Clock.tick w.session).2 with
      | false =>
        rw [hsession, hlive]
        apply h.replace hhandle hlt
        intro rest hrest
        cases hrest
      | true =>
        rw [hsession, hlive]
        apply h.replace hhandle hlt
        intro rest hrest
        obtain rfl : w.period = rest := Option.some.inj hrest
        exact ⟨Nat.lt_of_lt_of_le hpos hle, Nat.le_refl _⟩

theorem Sound.advance (h : w.Sound) (time : Nat) :
    (w.advance time).Sound ∧ (w.advance time).clock = w.clock.advance time := by
  induction time generalizing w with
  | zero => exact ⟨h, (Clock.advance_zero h.clock).symm⟩
  | succ time ih =>
    obtain ⟨hsound, hclock⟩ := h.elapse
    obtain ⟨hsound', hclock'⟩ := ih hsound
    refine ⟨hsound', ?_⟩
    rw [Nat.add_comm time, Clock.advance_add h.clock, ← hclock, ← hclock']
    rw [Nat.add_comm 1]
    rfl

/-! ## Starting and stopping -/

theorem Sound.spawn (h : w.Sound) (hperiod : w.period ≠ 0) (hrunning : w.isRunning = false) :
    let after : Clockwork :=
      { w with tasks := w.tasks ++ [.live w.period], handle := some w.tasks.length }
    after.Sound ∧ after.clock = { w.clock with wait := some w.period } := by
  intro after
  have hnew : after.wait? w.tasks.length = some w.period := by
    simp [after, wait?, Task.wait?]
  have hwait : ∀ {i wait}, after.wait? i = some wait →
      i = w.tasks.length ∧ wait = w.period := by
    intro i wait hi
    have hlt := (List.getElem?_eq_some_iff.mp (wait?_eq_some.mp hi)).1
    rw [List.length_append, List.length_singleton] at hlt
    rcases Nat.lt_or_eq_of_le (Nat.le_of_lt_succ hlt) with hold | rfl
    · -- a task from before would have been running the clockwork
      have hsame : after.wait? i = w.wait? i := by
        simp [after, wait?, List.getElem?_append_left hold]
      rw [hsame, h.over hrunning i] at hi
      cases hi
    · rw [hnew] at hi
      exact ⟨rfl, (Option.some.inj hi).symm⟩
  refine ⟨⟨?_, ?_⟩, ?_⟩
  · intro i wait hi
    obtain ⟨rfl, _⟩ := hwait hi
    rfl
  · intro i wait hi
    obtain ⟨_, rfl⟩ := hwait hi
    exact ⟨Nat.pos_of_ne_zero hperiod, Nat.le_refl _⟩
  · rw [← hnew]
    rfl

theorem Sound.start (h : w.Sound) :
    w.start.1.Sound ∧ w.start.1.clock = w.clock.start.1 ∧ w.start.2 = w.clock.start.2 := by
  unfold Clockwork.start Clock.start
  rw [isRunning_clock, show w.clock.period = w.period from rfl,
    show w.clock.session = w.session from rfl, show w.clock.hosted = w.hosted from rfl]
  by_cases hzero : w.period = 0
  · rw [if_pos hzero, if_pos hzero]
    exact ⟨h, rfl, rfl⟩
  · rw [if_neg hzero, if_neg hzero]
    by_cases hrefused : (w.isRunning || !w.session.isRunning) = true
    · rw [if_pos hrefused, if_pos hrefused]
      exact ⟨h, rfl, rfl⟩
    · rw [if_neg hrefused, if_neg hrefused]
      by_cases hhosted : w.hosted
      · rw [if_pos hhosted, if_pos hhosted]
        have hrunning : w.isRunning = false := by
          cases hlive : w.isRunning with
          | false => rfl
          | true => simp [hlive] at hrefused
        obtain ⟨hsound, hclock⟩ := h.spawn hzero hrunning
        exact ⟨hsound, hclock, rfl⟩
      · rw [if_neg hhosted, if_neg hhosted]
        exact ⟨h, rfl, rfl⟩

/-- After a stop no task is live. -/
theorem Sound.stop_over (h : w.Sound) (i : Nat) : w.stop.1.wait? i = none := by
  unfold Clockwork.stop
  cases hhandle : w.handle with
  | none =>
    have hrunning : w.isRunning = false := by simp [Clockwork.isRunning, hhandle]
    exact h.over hrunning i
  | some j =>
    simp only [wait?, List.getElem?_modify]
    by_cases hj : j = i
    · simp only [if_pos hj]
      cases w.tasks[i]? with
      | none => rfl
      | some task => exact Task.wait?_abort task
    · simp only [if_neg hj, id_map']
      cases hwait : w.wait? i with
      | none => exact hwait
      | some wait =>
        have hheld := h.held hwait
        rw [hhandle] at hheld
        exact absurd (Option.some.inj hheld) hj

theorem stop_snd (w : Clockwork) : w.stop.2 = w.isRunning := by
  unfold stop isRunning
  cases w.handle <;> rfl

theorem stop_clock (w : Clockwork) : w.stop.1.clock = w.clock.stop.1 := by
  unfold stop
  cases hhandle : w.handle with
  | none =>
    have hwait : w.clock.wait = none := by simp [clock, hhandle]
    show w.clock = { w.clock with wait := none }
    rw [← hwait]
  | some i => rfl

/-- The session is another one, and nothing else has changed. -/
theorem Sound.edit (h : w.Sound) (session : Session) : { w with session }.Sound :=
  ⟨h.held, h.due⟩

theorem Sound.stop (h : w.Sound) : w.stop.1.Sound :=
  Sound.of_over h.stop_over

theorem singleStep_clock (w : Clockwork) : w.singleStep.1.clock = w.clock.singleStep.1 := by
  show { w.stop.1.clock with session := w.session.forceRunning.step.1 } = _
  rw [stop_clock]
  rfl

theorem reset_clock (w : Clockwork) : w.reset.clock = w.clock.reset := by
  show { w.stop.1.clock with session := w.session.reset } = _
  rw [stop_clock]
  rfl

/-! ## Joining -/

/-- Time passes for a task whether or not there is a handle of it. -/
theorem advance_release (w : Clockwork) (time : Nat) :
    w.release.advance time = (w.advance time).release := by
  induction time generalizing w with
  | zero => rfl
  | succ time ih => exact ih w.elapse

theorem advance_handle (w : Clockwork) (time : Nat) : (w.advance time).handle = w.handle := by
  induction time generalizing w with
  | zero => rfl
  | succ time ih => exact ih w.elapse

theorem isLive_advance_release (hhandle : w.handle = some i) (time : Nat) :
    (w.release.advance time).isLive i = (w.advance time).isRunning := by
  rw [advance_release]
  unfold isRunning
  rw [advance_handle, hhandle]
  rfl

theorem Sound.release (h : w.Sound) (hrunning : w.isRunning = false) :
    w.release.Sound ∧ w.release.clock = w.clock := by
  have hover := h.over hrunning
  refine ⟨Sound.of_over hover, ?_⟩
  have hwait := clock_wait_of_over hover
  show { w.clock with wait := none } = w.clock
  rw [← hwait]

theorem Sound.joins (h : w.Sound) (hjoins : w.Joins w') :
    w'.Sound ∧ w.clock.join = some w'.clock := by
  cases hjoins with
  | idle hhandle =>
    refine ⟨h, ?_⟩
    have hwait : w.clock.wait = none := by simp [Clockwork.clock, hhandle]
    rw [Clock.join_eq_some_iff h.clock]
    refine ⟨0, ?_, Clock.advance_of_stopped hwait⟩
    rw [Clock.advance_of_stopped hwait]
    simp [Clock.isRunning, hwait]
  | @awaited i time hhandle hover hlive =>
    rw [isLive_advance_release hhandle] at hover
    obtain ⟨hsound, hclock⟩ := h.advance time
    obtain ⟨hsound', hclock'⟩ := hsound.release hover
    rw [advance_release, hclock', Clock.join_eq_some_iff h.clock]
    refine ⟨hsound', time, ?_, hclock.symm⟩
    rw [← hclock, isRunning_clock]
    exact hover

/-- Where the clock comes back from being joined, the clockwork does. -/
theorem Sound.exists_joins (h : w.Sound) (hjoin : w.clock.join = some c) :
    ∃ w', w.Joins w' ∧ w'.clock = c := by
  obtain ⟨time, hstopped, _⟩ := (Clock.join_eq_some_iff h.clock).mp hjoin
  have hjoins : ∃ w', w.Joins w' := by
    cases hhandle : w.handle with
    | none => exact ⟨w, .idle hhandle⟩
    | some i =>
      have hend : ∃ time, (w.release.advance time).isLive i = false := by
        refine ⟨time, ?_⟩
        rw [isLive_advance_release hhandle, ← isRunning_clock, (h.advance time).2]
        exact hstopped
      -- the first of these moments
      refine ⟨_, .awaited hhandle (Nat.find_spec hend) ?_⟩
      intro earlier hlt
      simpa using Nat.find_min hend hlt
  obtain ⟨w', hjoins⟩ := hjoins
  refine ⟨w', hjoins, ?_⟩
  have hsame := (h.joins hjoins).2
  rw [hjoin] at hsame
  exact (Option.some.inj hsame).symm

/-! ## Joins that are given up -/

/-- The task is live, and there is no handle of it. -/
theorem Abandons.detached (h : w.Abandons time w') :
    ∃ i, w'.isLive i = true ∧ w'.handle = none := by
  cases h with
  | @pending i hhandle hlive =>
    refine ⟨i, hlive, ?_⟩
    rw [advance_release]
    rfl

end Octet.Clockwork
