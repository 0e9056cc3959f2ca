import Octet.Proofs.Machine.TraceHistory

/-!
# Dropping entries at once

A trace keeps entries for a while that it does not show any more, and drops many of them together. It
could as well drop the oldest ones before it stores another one (`pushEvicting`): then it never stores
more than it shows, and there is nothing to be cut when it is read. Nobody can tell the two apart, as
both show the latest of the entries that they have been told of.

The main statement is `entries_eq_evicting`.
-/

namespace Octet.Trace

variable {trace : Trace} {told : List Entry}

/-- The number of entries that must go before another one is stored. -/
def excess (trace : Trace) : Nat :=
  match trace.limit with
  | none => 0
  | some limit => if limit ≤ trace.stored.size then trace.stored.size + 1 - limit else 0

/-- Records an entry, and drops the oldest ones before if there were too many otherwise. -/
def pushEvicting (trace : Trace) (entry : Entry) : Trace :=
  if trace.enabled = false ∨ trace.limit = some 0 then trace
  else { trace with stored := (trace.stored.extract trace.excess trace.stored.size).push entry }

/-- The trace after an event. -/
def tell (trace : Trace) : TraceEvent → Trace
  | .executed entry => trace.push entry
  | .cleared => trace.clear

/-- The trace after an event, if it drops entries at once. -/
def tellEvicting (trace : Trace) : TraceEvent → Trace
  | .executed entry => trace.pushEvicting entry
  | .cleared => trace.clear

/-! ## One event -/

theorem clear_tell (trace : Trace) (event : TraceEvent) : (trace.tell event).clear = trace.clear := by
  cases event with
  | executed entry => exact clear_push trace entry
  | cleared => rfl

theorem clear_tellEvicting (trace : Trace) (event : TraceEvent) :
    (trace.tellEvicting event).clear = trace.clear := by
  cases event with
  | executed entry =>
    show (trace.pushEvicting entry).clear = trace.clear
    unfold pushEvicting
    split <;> rfl
  | cleared => rfl

theorem Records.tell (h : trace.Records told) (event : TraceEvent) :
    (trace.tell event).Records (event.after told) := by
  cases event with
  | executed entry => exact h.push entry
  | cleared => exact records_clear trace

/-- The trace stores the latest of the entries that it has been told of, and no other. -/
def Keeps (trace : Trace) (told : List Entry) : Prop :=
  trace.stored.toList = if trace.enabled then latest trace.limit told else []

/-- What is left after the oldest entries have gone has room for one more. -/
theorem drop_excess {limit : Nat} (hlimit : trace.limit = some (limit + 1))
    (h : trace.stored.toList = told.rtake (limit + 1)) :
    trace.stored.toList.drop trace.excess = told.rtake limit := by
  have hsize : trace.stored.size = min (limit + 1) told.length := by
    rw [← Array.length_toList, h, length_rtake]
  have hexcess : trace.excess = if limit < told.length then 1 else 0 := by
    unfold excess
    simp only [hlimit, hsize]
    split <;> split <;> omega
  rw [h, hexcess, List.rtake, List.rtake, List.drop_drop]
  congr 1
  split <;> omega

theorem Keeps.pushEvicting (h : trace.Keeps told) (entry : Entry) :
    (trace.pushEvicting entry).Keeps (told ++ [entry]) := by
  unfold Keeps Trace.pushEvicting
  by_cases hidle : trace.enabled = false ∨ trace.limit = some 0
  · rw [if_pos hidle, h]
    rcases hidle with hdisabled | hlimit
    · simp [hdisabled]
    · simp [hlimit, latest]
  · obtain ⟨henabled, hpositive⟩ := not_or.mp hidle
    rw [Bool.not_eq_false] at henabled
    rw [Keeps, if_pos henabled] at h
    rw [if_neg hidle]
    show ((trace.stored.extract trace.excess trace.stored.size).push entry).toList =
      if trace.enabled then latest trace.limit (told ++ [entry]) else []
    have hdropped : (trace.stored.extract trace.excess trace.stored.size).toList =
        trace.stored.toList.drop trace.excess := by
      rw [Array.toList_extract, List.extract_eq_take_drop]
      exact List.take_of_length_le (by simp)
    rw [if_pos henabled, Array.toList_push, hdropped]
    cases hlimit : trace.limit with
    | none =>
      rw [hlimit] at h
      have hexcess : trace.excess = 0 := by simp only [excess, hlimit]
      rw [hexcess, List.drop_zero, h]
      rfl
    | some limit =>
      rw [hlimit] at h hpositive
      cases limit with
      | zero => exact absurd rfl hpositive
      | succ limit =>
        rw [drop_excess hlimit h]
        exact (List.rtake_concat_succ told limit entry).symm

theorem keeps_clear (trace : Trace) : trace.clear.Keeps [] := by
  show ([] : List Entry) = if trace.enabled then latest trace.limit [] else []
  cases trace.limit <;> simp [latest]

theorem Keeps.tellEvicting (h : trace.Keeps told) (event : TraceEvent) :
    (trace.tellEvicting event).Keeps (event.after told) := by
  cases event with
  | executed entry => exact h.pushEvicting entry
  | cleared => exact keeps_clear trace

/-! ## Any history -/

/-- What leaves the settings of a trace event by event leaves them over a history. -/
theorem clear_foldl {f : Trace → TraceEvent → Trace}
    (hf : ∀ trace event, (f trace event).clear = trace.clear) (trace : Trace)
    (history : List TraceEvent) : (history.foldl f trace).clear = trace.clear := by
  induction history generalizing trace with
  | nil => rfl
  | cons event rest ih => exact (ih _).trans (hf trace event)

theorem entries_foldl_tell (trace : Trace) (history : List TraceEvent) :
    (history.foldl tell trace.clear).entries =
      if trace.enabled then latest trace.limit (TraceEvent.recent history) else [] := by
  have hrecords : (history.foldl tell trace.clear).Records (history.foldl TraceEvent.after []) :=
    List.foldl_rel (records_clear trace) fun event _ _ _ h => h.tell event
  obtain ⟨henabled, hlimit⟩ := settings_eq_of_clear_eq (clear_foldl clear_tell trace.clear history)
  rw [hrecords.entries_eq, henabled, hlimit, TraceEvent.foldl_after]
  rfl

theorem toList_foldl_tellEvicting (trace : Trace) (history : List TraceEvent) :
    (history.foldl tellEvicting trace.clear).stored.toList =
      if trace.enabled then latest trace.limit (TraceEvent.recent history) else [] := by
  have hkeeps : (history.foldl tellEvicting trace.clear).Keeps
      (history.foldl TraceEvent.after []) :=
    List.foldl_rel (keeps_clear trace) fun event _ _ _ h => h.tellEvicting event
  obtain ⟨henabled, hlimit⟩ :=
    settings_eq_of_clear_eq (clear_foldl clear_tellEvicting trace.clear history)
  rw [hkeeps, henabled, hlimit, TraceEvent.foldl_after]
  rfl

/-- **When entries are dropped cannot be seen.** Two traces with the same settings are told the same,
from a fresh start on. One of them drops entries now and then and hides the others, and the other one
drops the oldest entry whenever another one would be too much, and shows all that it stores. They show
the same, which is never more than the limit allows. -/
theorem entries_eq_evicting (trace : Trace) (history : List TraceEvent) :
    let evicting := history.foldl tellEvicting trace.clear
    (history.foldl tell trace.clear).entries = evicting.stored.toList ∧
      ∀ limit, trace.limit = some limit → evicting.stored.size ≤ limit := by
  intro evicting
  have hstored := toList_foldl_tellEvicting trace history
  refine ⟨(entries_foldl_tell trace history).trans hstored.symm, ?_⟩
  intro limit hlimit
  rw [← Array.length_toList, hstored, hlimit]
  split
  · exact (length_rtake limit _).trans_le (min_le_left _ _)
  · exact Nat.zero_le _

end Octet.Trace
