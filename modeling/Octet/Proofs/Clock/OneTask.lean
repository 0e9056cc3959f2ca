import Octet.Proofs.Clock.Operations

/-!
# One task at most

What is done to a clock, and what it answers, is an `Event`, and a log of events is what happens
between two clocks (`Runs`). A clock and the clockwork with its tasks have the same logs, as each of
them can do what the other one does (`Sound.does`, `Sound.exists_does`), and so what is proved of
the tasks is proved of the clock. A join that is given up is the one thing that a clock cannot do, as it
has no place for a task that is live and cannot be stopped.

The main statement is `one_task_at_most`.
-/

namespace Octet

/-- What happens between two states, event by event. -/
inductive Runs {State Event : Type} (does : State → Event → State → Prop) :
    State → List Event → State → Prop where
  | nil (s : State) : Runs does s [] s
  | cons {s s' s'' : State} {event : Event} {log : List Event} (h : does s event s')
    (hrest : Runs does s' log s'') : Runs does s (event :: log) s''

namespace Runs

variable {State Other Event : Type} {does : State → Event → State → Prop}
  {doesOther : Other → Event → Other → Prop} {log : List Event}

/-- What can be answered in every event of a log can be answered in the log. -/
theorem simulation {R : State → Other → Prop} {s s' : State} {t : Other}
    (h : Runs does s log s')
    (hstep : ∀ s t, ∀ event ∈ log, ∀ s', R s t → does s event s' →
      ∃ t', doesOther t event t' ∧ R s' t')
    (hR : R s t) : ∃ t', Runs doesOther t log t' ∧ R s' t' := by
  induction h generalizing t with
  | nil s => exact ⟨t, .nil t, hR⟩
  | cons hdoes _ ih =>
    obtain ⟨t₁, ht₁, hR₁⟩ := hstep _ _ _ List.mem_cons_self _ hR hdoes
    obtain ⟨t₂, ht₂, hR₂⟩ :=
      ih (fun s t event hevent => hstep s t event (List.mem_cons_of_mem _ hevent)) hR₁
    exact ⟨t₂, .cons ht₁ ht₂, hR₂⟩

/-- What every event of a log keeps, the log keeps. -/
theorem invariant {P : State → Prop} {s s' : State} (h : Runs does s log s')
    (hstep : ∀ s s', ∀ event ∈ log, does s event s' → P s → P s') (hs : P s) : P s' := by
  induction h with
  | nil => exact hs
  | cons hdoes _ ih =>
    apply ih
    · intro s s' event hevent
      exact hstep s s' event (List.mem_cons_of_mem _ hevent)
    · exact hstep _ _ _ List.mem_cons_self hdoes hs

end Runs

namespace Clock

/-- What can be done to a clock. The session can be changed in any way. -/
inductive Action where
  | start
  | stop
  | singleStep
  | reset
  | join
  /-- A join that is given up after this time, before it has come back. -/
  | abandon (time : Nat)
  | advance (time : Nat)
  | edit (change : Session → Session)

/-- Whether no clock runs after the action. -/
def Action.ends : Action → Bool
  | stop => true
  | singleStep => true
  | reset => true
  | join => true
  | start => false
  | abandon _ => false
  | advance _ => false
  | edit _ => false

/-- Whether the action is a join that is given up. -/
def Action.abandons : Action → Bool
  | abandon _ => true
  | start => false
  | stop => false
  | singleStep => false
  | reset => false
  | join => false
  | advance _ => false
  | edit _ => false

inductive Answer where
  | started (result : Except Error Bool)
  | stopped (wasRunning : Bool)
  | stepped (entry : Option Entry)
  | done

abbrev Event := Action × Answer

/-- The clock before and after an event. A clock that never stops does not come back from `join`, and
no clock can tell what becomes of a join that is given up. -/
inductive Does (c : Clock) : Event → Clock → Prop where
  | start : c.Does (.start, .started c.start.2) c.start.1
  | stop : c.Does (.stop, .stopped c.stop.2) c.stop.1
  | singleStep : c.Does (.singleStep, .stepped c.singleStep.2) c.singleStep.1
  | reset : c.Does (.reset, .done) c.reset
  | join {c' : Clock} (h : c.join = some c') : c.Does (.join, .done) c'
  | advance (time : Nat) : c.Does (.advance time, .done) (c.advance time)
  | edit (change : Session → Session) :
    c.Does (.edit change, .done) { c with session := change c.session }

theorem Does.not_abandons {c c' : Clock} {event : Event} (h : c.Does event c') :
    event.1.abandons = false := by
  cases h <;> rfl

end Clock

namespace Clockwork

open Clock (Event)

/-- The tasks before and after an event. -/
inductive Does (w : Clockwork) : Event → Clockwork → Prop where
  | start : w.Does (.start, .started w.start.2) w.start.1
  | stop : w.Does (.stop, .stopped w.stop.2) w.stop.1
  | singleStep : w.Does (.singleStep, .stepped w.singleStep.2) w.singleStep.1
  | reset : w.Does (.reset, .done) w.reset
  | join {w' : Clockwork} (h : w.Joins w') : w.Does (.join, .done) w'
  | abandon {w' : Clockwork} {time : Nat} (h : w.Abandons time w') :
    w.Does (.abandon time, .done) w'
  | advance (time : Nat) : w.Does (.advance time, .done) (w.advance time)
  | edit (change : Session → Session) :
    w.Does (.edit change, .done) { w with session := change w.session }

variable {w w' : Clockwork} {c c' : Clock} {event : Event} {log : List Event}

/-- The clock can do what the tasks do, but for joins that are given up. -/
theorem Sound.does (h : w.Sound) (hdoes : w.Does event w') (hjoined : event.1.abandons = false) :
    w'.Sound ∧ w.clock.Does event w'.clock := by
  cases hdoes with
  | start =>
    obtain ⟨hsound, hclock, hanswer⟩ := h.start
    refine ⟨hsound, ?_⟩
    rw [hclock, hanswer]
    exact .start
  | stop =>
    refine ⟨h.stop, ?_⟩
    rw [stop_clock, stop_snd, ← isRunning_clock]
    exact .stop
  | singleStep =>
    refine ⟨h.stop.edit _, ?_⟩
    rw [singleStep_clock]
    exact .singleStep
  | reset =>
    refine ⟨h.stop.edit _, ?_⟩
    rw [reset_clock]
    exact .reset
  | join hjoins =>
    obtain ⟨hsound, hclock⟩ := h.joins hjoins
    exact ⟨hsound, .join hclock⟩
  | abandon => cases hjoined
  | advance time =>
    obtain ⟨hsound, hclock⟩ := h.advance time
    refine ⟨hsound, ?_⟩
    rw [hclock]
    exact .advance time
  | edit change => exact ⟨h.edit _, .edit change⟩

/-- One more event leaves a live task behind that there is no handle of exactly if it is a join that is
given up. -/
theorem Sound.detaches_iff (h : w.Sound) (hdoes : w.Does event w') :
    (∃ i, w'.isLive i = true ∧ w'.handle ≠ some i) ↔ event.1.abandons = true := by
  constructor
  · rintro ⟨i, hlive, hhandle⟩
    by_contra hjoined
    obtain ⟨wait, hwait⟩ := isLive_iff.mp hlive
    exact hhandle ((h.does hdoes (by simpa using hjoined)).1.held hwait)
  · intro habandons
    cases hdoes with
    | abandon habandoned =>
      obtain ⟨i, hlive, hhandle⟩ := habandoned.detached
      exact ⟨i, hlive, by simp [hhandle]⟩
    | start | stop | singleStep | reset | join | advance | edit => cases habandons

/-- The tasks can do what the clock does. -/
theorem Sound.exists_does (h : w.Sound) (hdoes : w.clock.Does event c') :
    ∃ w', w.Does event w' ∧ w'.clock = c' := by
  cases hdoes with
  | start =>
    obtain ⟨_, hclock, hanswer⟩ := h.start
    refine ⟨w.start.1, ?_, hclock⟩
    rw [← hanswer]
    exact .start
  | stop =>
    refine ⟨w.stop.1, ?_, stop_clock w⟩
    rw [show w.clock.stop.2 = w.stop.2 from (isRunning_clock w).trans (stop_snd w).symm]
    exact .stop
  | singleStep => exact ⟨w.singleStep.1, .singleStep, singleStep_clock w⟩
  | reset => exact ⟨w.reset, .reset, reset_clock w⟩
  | join hjoin =>
    obtain ⟨w', hjoins, hclock⟩ := h.exists_joins hjoin
    exact ⟨w', .join hjoins, hclock⟩
  | advance time => exact ⟨w.advance time, .advance time, (h.advance time).2⟩
  | edit change => exact ⟨{ w with session := change w.session }, .edit change, rfl⟩

/-- The clockwork is sound, and this is its clock. -/
def Shows (w : Clockwork) (c : Clock) : Prop :=
  w.Sound ∧ w.clock = c

theorem shows_ofClock (hrest : c.wait = none) : (ofClock c).Shows c :=
  ⟨sound_ofClock c, clock_ofClock hrest⟩

theorem Shows.does (h : w.Shows c) (hdoes : w.Does event w') (hjoined : event.1.abandons = false) :
    ∃ c', c.Does event c' ∧ w'.Shows c' := by
  obtain ⟨hsound, rfl⟩ := h
  obtain ⟨hsound', hclock⟩ := hsound.does hdoes hjoined
  exact ⟨w'.clock, hclock, hsound', rfl⟩

theorem Shows.exists_does (h : w.Shows c) (hdoes : c.Does event c') :
    ∃ w', w.Does event w' ∧ w'.Shows c' := by
  obtain ⟨hsound, rfl⟩ := h
  obtain ⟨w', hw', hclock⟩ := hsound.exists_does hdoes
  exact ⟨w', hw', (hsound.does hw' hdoes.not_abandons).1, hclock⟩

/-- A clock at rest and the clockwork without tasks have the same logs, as long as every join comes
back. -/
theorem runs_iff (hrest : c.wait = none) (hjoined : ∀ event ∈ log, event.1.abandons = false) :
    Runs Clock.Does c log c' ↔ ∃ w, Runs Does (ofClock c) log w ∧ w.clock = c' := by
  have hstart := shows_ofClock hrest
  constructor
  · intro h
    have htasks : ∃ w, Runs Does (ofClock c) log w ∧ w.Shows c' :=
      h.simulation (R := fun c w => Shows w c) (fun _ _ _ _ _ => Shows.exists_does) hstart
    obtain ⟨w, hw, _, hclock⟩ := htasks
    exact ⟨w, hw, hclock⟩
  · rintro ⟨w, hw, rfl⟩
    have hclock : ∃ c', Runs Clock.Does c log c' ∧ w.Shows c' :=
      hw.simulation (fun _ _ event hevent _ hshows hdoes =>
        hshows.does hdoes (hjoined event hevent)) hstart
    obtain ⟨c', hc', _, rfl⟩ := hclock
    exact hc'

theorem sound_of_runs (h : Runs Does (ofClock c) log w)
    (hjoined : ∀ event ∈ log, event.1.abandons = false) : w.Sound := by
  refine h.invariant (fun w w' event hevent hdoes hsound => ?_) (sound_ofClock c)
  exact (hsound.does hdoes (hjoined event hevent)).1

theorem start_of_refused (hperiod : w.period ≠ 0)
    (h : w.isRunning = true ∨ w.session.isRunning = false) : w.start = (w, .ok false) := by
  have hrefused : (w.isRunning || !w.session.isRunning) = true := by
    rcases h with h | h <;> simp [h]
  unfold start
  rw [if_neg hperiod, if_pos hrefused]

end Clockwork

namespace Clock

variable {c c' after last : Clock} {log later : List Event} {event : Event} {action : Action}
  {answer : Answer}

/-! ## What the clock answers -/

theorem start_of_refused (hperiod : c.period ≠ 0)
    (h : c.isRunning = true ∨ c.session.isRunning = false) : c.start = (c, .ok false) := by
  have hrefused : (c.isRunning || !c.session.isRunning) = true := by
    rcases h with h | h <;> simp [h]
  unfold start
  rw [if_neg hperiod, if_pos hrefused]

theorem start_of_not_started (h : c.start.2 ≠ .ok true) : c.start.1 = c := by
  unfold start at h ⊢
  split
  · rfl
  · split
    · rfl
    · split
      · next hzero hrefused hhosted => simp [hzero, hrefused, hhosted] at h
      · rfl

/-- A step that is forced is one instruction, whatever the state was. -/
theorem run_one_singleStep (c : Clock) :
    c.session.forceRunning.run 1 = (c.singleStep.1.session, 1) ∧ c.singleStep.2.isSome = true := by
  have hrunning : c.session.forceRunning.isRunning = true := rfl
  refine ⟨?_, Session.step_isSome hrunning⟩
  rw [Session.run_succ hrunning]
  rfl

/-- An advance executes a number of instructions that is not above the number of the periods that
come to their end. -/
theorem exists_run_advance (h : c.Sound) (time : Nat) :
    ∃ n ≤ (c.sinceTick + time) / c.period, c.session.run n = ((c.advance time).session, n) := by
  cases hwait : c.wait with
  | none =>
    refine ⟨0, Nat.zero_le _, ?_⟩
    rw [advance_of_stopped hwait]
    rfl
  | some wait =>
    have hrunning : c.isRunning = true := by simp [isRunning, hwait]
    obtain ⟨hle, hsame⟩ := c.session.run_executed ((c.sinceTick + time) / c.period)
    refine ⟨_, hle, ?_⟩
    rw [session_advance h hrunning, hsame]

/-! ## After a clock has stopped -/

theorem wait_of_not_running (h : c.isRunning = false) : c.wait = none := by
  simpa [isRunning] using h

theorem Does.wait_of_ends (h : c.Does (action, answer) after) (hends : action.ends = true) :
    after.wait = none := by
  cases h with
  | stop | singleStep | reset => rfl
  | join hjoin =>
    unfold Clock.join at hjoin
    split at hjoin
    · obtain ⟨session, _, rfl⟩ := Option.map_eq_some_iff.mp hjoin
      rfl
    · next hrunning =>
      obtain rfl := Option.some.inj hjoin
      exact wait_of_not_running (by simpa using hrunning)
  | start | advance | edit => cases hends

/-- Nothing but a start that succeeds makes a clock run that does not. -/
theorem Does.wait_of_not_started (h : c.Does event c')
    (hevent : event ≠ (.start, .started (.ok true))) (hwait : c.wait = none) : c'.wait = none := by
  cases h with
  | start =>
    have hanswer : c.start.2 ≠ .ok true := by
      intro heq
      rw [heq] at hevent
      exact hevent rfl
    rw [start_of_not_started hanswer]
    exact hwait
  | stop | singleStep | reset => rfl
  | join hjoin =>
    have hrunning : c.isRunning = false := by simp [isRunning, hwait]
    simp only [Clock.join, hrunning, Bool.false_eq_true, if_false] at hjoin
    obtain rfl := Option.some.inj hjoin
    exact hwait
  | advance time =>
    rw [advance_of_stopped hwait]
    exact hwait
  | edit change => exact hwait

theorem wait_of_runs (h : Runs Does after later last)
    (hlater : (Action.start, Answer.started (.ok true)) ∉ later) (hwait : after.wait = none) :
    last.wait = none := by
  apply h.invariant (P := fun c => c.wait = none) ?_ hwait
  intro c c' event hevent hdoes
  apply hdoes.wait_of_not_started
  intro heq
  rw [heq] at hevent
  exact hlater hevent

/-! ## The main statement -/

/-- **A clock is run by one task at most.** Let anything be done to a clock at rest and to its session,
with every join coming back. The tasks that run the clock do the same, and no two of them are live.
Wherever this has led to, an advance executes at most one instruction for each period that comes to its
end; a start is refused and changes nothing if the clock is running or the machine is not; a stop says
whether the clock was running; a single step is one instruction; and when the clock has been stopped or
has come to its end, no passing of time changes anything until it is started again. Of all that can be
done next, only a join that is given up leaves a live task behind without its handle. -/
theorem one_task_at_most (c : Clock) (hrest : c.wait = none) (log : List Event)
    (hjoined : ∀ event ∈ log, event.1.abandons = false) :
    (∀ c', Runs Does c log c' ↔ ∃ w, Runs Clockwork.Does (.ofClock c) log w ∧ w.clock = c') ∧
    (∀ w, Runs Clockwork.Does (.ofClock c) log w →
      (∀ i j, w.isLive i = true → w.isLive j = true → i = j) ∧
      (w.stop.2 = true ↔ ∃ i, w.isLive i = true) ∧
      (w.period ≠ 0 → (∃ i, w.isLive i = true) ∨ w.session.isRunning = false →
        w.start = (w, .ok false)) ∧
      (∀ event w', w.Does event w' →
        ((∃ i, w'.isLive i = true ∧ w'.handle ≠ some i) ↔ event.1.abandons = true))) ∧
    (∀ c', Runs Does c log c' →
      (c'.isRunning = true → c'.sinceTick < c'.period) ∧
      (∀ time, ∃ n ≤ (c'.sinceTick + time) / c'.period,
        c'.session.run n = ((c'.advance time).session, n)) ∧
      (c'.period ≠ 0 → c'.isRunning = true ∨ c'.session.isRunning = false →
        c'.start = (c', .ok false)) ∧
      c'.stop.2 = c'.isRunning ∧
      (c'.session.forceRunning.run 1 = (c'.singleStep.1.session, 1) ∧
        c'.singleStep.2.isSome = true) ∧
      (∀ action answer after, c'.Does (action, answer) after →
        action.ends = true ∨ after.isRunning = false →
        ∀ later last, Runs Does after later last → (.start, .started (.ok true)) ∉ later →
          ∀ time, last.advance time = last)) := by
  refine ⟨fun c' => Clockwork.runs_iff hrest hjoined, ?_, ?_⟩
  · -- what is said of the tasks holds of all sound clockworks
    intro w hw
    have hsound := Clockwork.sound_of_runs hw hjoined
    refine ⟨fun i j => hsound.eq_of_isLive, ?_, ?_, fun event w' => hsound.detaches_iff⟩
    · rw [Clockwork.stop_snd]
      exact hsound.isRunning_iff
    · intro hperiod hrefused
      rw [← hsound.isRunning_iff] at hrefused
      exact Clockwork.start_of_refused hperiod hrefused
  · -- and the clock is the one that such a clockwork shows
    intro c' hc'
    obtain ⟨w, hw, rfl⟩ := (Clockwork.runs_iff hrest hjoined).mp hc'
    have hsound := (Clockwork.sound_of_runs hw hjoined).clock
    refine ⟨hsound.sinceTick_lt, exists_run_advance hsound, start_of_refused, rfl,
      run_one_singleStep _, ?_⟩
    intro action answer after hdoes hended later last hlast hlater time
    have hwait : after.wait = none := by
      rcases hended with hends | hrunning
      · exact hdoes.wait_of_ends hends
      · exact wait_of_not_running hrunning
    exact advance_of_stopped (wait_of_runs hlast hlater hwait)

/-- A loop is started, which is refused the second time, and stopped in its first period. After
that, forcing the machine to run does not start the clock. -/
theorem one_task_at_most_stopped :
    let c := ofSession (Session.ofConfig { isa := .cdc8512, clockPeriod := 500 })
    let live := (c.start.1.advance 499).start.1
    let after := { live.stop.1 with session := live.stop.1.session.forceRunning }
    let log : List Event :=
      [(.start, .started (.ok true)), (.advance 499, .done), (.start, .started (.ok false))]
    Runs Does c log live ∧ live.sinceTick = 499 ∧
      (∃ w, Runs Clockwork.Does (.ofClock c) log w ∧ w.clock = live ∧
        ∃ i, w.isLive i = true ∧ ∀ j, w.isLive j = true → j = i) ∧
      live.Does (.stop, .stopped true) live.stop.1 ∧
      Runs Does live.stop.1 [(.edit Session.forceRunning, .done)] after ∧
      ∀ time, after.advance time = after := by
  intro c live after log
  have hruns : Runs Does c log live := .cons .start (.cons (.advance 499) (.cons .start (.nil live)))
  have hstop : live.Does (.stop, .stopped true) live.stop.1 := .stop
  have hedit : Runs Does live.stop.1 [(.edit Session.forceRunning, .done)] after :=
    .cons (.edit Session.forceRunning) (.nil after)
  have hjoined : ∀ event ∈ log, event.1.abandons = false := by decide
  obtain ⟨hlogs, htasks, hclock⟩ := one_task_at_most c rfl log hjoined
  obtain ⟨w, hw, hlive⟩ := (hlogs live).mp hruns
  obtain ⟨_, _, _, _, _, hsilent⟩ := hclock live hruns
  obtain ⟨hone, hrunning, _⟩ := htasks w hw
  refine ⟨hruns, by decide +kernel, ⟨w, hw, hlive, ?_⟩, hstop, hedit, ?_⟩
  · have hstopped : w.stop.2 = true := by
      rw [Clockwork.stop_snd, ← Clockwork.isRunning_clock, hlive]
      rfl
    obtain ⟨i, hi⟩ := hrunning.mp hstopped
    exact ⟨i, hi, fun j hj => hone j i hj hi⟩
  · exact hsilent _ _ _ hstop (.inl rfl) _ _ hedit (by simp)

end Clock

end Octet
