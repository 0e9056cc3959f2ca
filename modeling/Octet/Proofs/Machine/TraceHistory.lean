import Mathlib.Data.List.Chain
import Mathlib.Data.List.DropRight
import Octet.Proofs.Machine.Run

/-!
# What a trace tells of the past

A trace is told of every entry, and clears itself when the machine starts afresh. What it stores is the
end of what it has been told since then (`Trace.Records`): it drops entries only where it keeps as
many as it shows, so that it shows the latest ones, whatever it stores (`Records.entries_eq`).

The entries that a machine adds follow one another: each begins at the address that the one before it
has left (`Linked`). `Machine.Tells` says both of a machine, `Tells.step` and `Tells.run` carry it on.
-/

namespace Octet

/-! ## What is stored and what is shown -/

namespace Trace

/-- The last entries of a list, as many as the limit allows. -/
def latest (limit : Option Nat) (told : List Entry) : List Entry :=
  limit.elim told told.rtake

/-- The trace has been told of these entries since it was cleared. Those that it has dropped are older
than the ones that it shows. -/
structure Records (trace : Trace) (told : List Entry) : Prop where
  /-- A trace that shows nothing stores nothing. -/
  idle : trace.enabled = false ∨ trace.limit = some 0 → trace.stored = #[]
  dropped : trace.enabled = true → ∃ older, told = older ++ trace.stored.toList ∧
    (older = [] ∨ ∃ limit, trace.limit = some limit ∧ limit ≤ trace.stored.size)

variable {trace : Trace} {told : List Entry}

theorem toList_lastOf (count : Nat) (entries : Array Entry) :
    (lastOf count entries).toList = entries.toList.rtake count := by
  rw [lastOf, Array.toList_extract, List.extract_eq_take_drop, List.rtake, Array.length_toList]
  exact List.take_of_length_le (by simp)

theorem length_rtake (count : Nat) (entries : List Entry) :
    (entries.rtake count).length = min count entries.length := by
  rw [List.rtake, List.length_drop]
  omega

/-- What stands in front of enough entries is not among the last ones. -/
theorem rtake_append_of_le {count : Nat} {older entries : List Entry} (h : count ≤ entries.length) :
    (older ++ entries).rtake count = entries.rtake count := by
  have hlength : (older ++ entries).length - count = older.length + (entries.length - count) := by
    rw [List.length_append]
    omega
  rw [List.rtake, hlength, List.drop_append, List.drop_of_length_le (by omega), List.nil_append]
  congr 1
  omega

theorem records_clear (trace : Trace) : trace.clear.Records [] where
  idle _ := rfl
  dropped _ := ⟨[], rfl, .inl rfl⟩

/-- The trace shows the latest of the entries that it has been told of. -/
theorem Records.entries_eq (h : trace.Records told) :
    trace.entries = if trace.enabled then latest trace.limit told else [] := by
  unfold entries latest
  cases henabled : trace.enabled with
  | false =>
    rw [h.idle (.inl henabled)]
    cases trace.limit with
    | none => rfl
    | some limit => simp [toList_lastOf]
  | true =>
    obtain ⟨older, rfl, holder⟩ := h.dropped henabled
    cases hlimit : trace.limit with
    | none =>
      obtain rfl : older = [] := by simpa [hlimit] using holder
      rfl
    | some limit =>
      show (lastOf limit trace.stored).toList = (older ++ trace.stored.toList).rtake limit
      rw [toList_lastOf]
      rcases holder with rfl | ⟨_, heq, hle⟩
      · rfl
      · obtain rfl := Option.some.inj (hlimit.symm.trans heq)
        rw [rtake_append_of_le (by simpa using hle)]

/-- Trimming drops nothing that is shown. -/
theorem Records.trim (h : trace.Records told) : trace.trim.Records told := by
  unfold Trace.trim
  split
  · exact h
  · next limit hlimit =>
    split
    · exact h
    · next hsize =>
      refine ⟨?_, ?_⟩
      · intro hidle
        have hstored : trace.stored = #[] := h.idle hidle
        show lastOf limit trace.stored = #[]
        rw [hstored]
        simp [lastOf]
      · intro henabled
        obtain ⟨older, rfl, _⟩ := h.dropped henabled
        have hstored : trace.stored.toList.rdrop limit ++ (lastOf limit trace.stored).toList =
            trace.stored.toList := by
          rw [toList_lastOf]
          exact List.take_append_drop _ _
        refine ⟨older ++ trace.stored.toList.rdrop limit, ?_, .inr ⟨limit, hlimit, ?_⟩⟩
        · rw [List.append_assoc, hstored]
        · show limit ≤ (lastOf limit trace.stored).size
          rw [← Array.length_toList, toList_lastOf, length_rtake, Array.length_toList]
          omega

theorem Records.push (h : trace.Records told) (entry : Entry) :
    (trace.push entry).Records (told ++ [entry]) := by
  unfold Trace.push
  by_cases hidle : trace.enabled = false ∨ trace.limit = some 0
  · rw [if_pos hidle]
    -- nothing is stored, so everything is older, and the limit is 0 if anything is to be shown
    have hstored := h.idle hidle
    refine ⟨fun _ => hstored, fun henabled => ⟨told ++ [entry], by simp [hstored], .inr ⟨0, ?_⟩⟩⟩
    rcases hidle with hdisabled | hlimit
    · rw [hdisabled] at henabled
      cases henabled
    · exact ⟨hlimit, Nat.zero_le _⟩
  · rw [if_neg hidle]
    apply Records.trim
    refine ⟨fun h => absurd h hidle, ?_⟩
    intro henabled
    obtain ⟨older, rfl, holder⟩ := h.dropped henabled
    refine ⟨older, by simp, holder.imp_right ?_⟩
    rintro ⟨limit, hlimit, hle⟩
    exact ⟨limit, hlimit, Nat.le_trans hle (by simp)⟩

end Trace

/-! ## What has been told -/

/-- What a trace is told of. -/
inductive TraceEvent where
  | executed (entry : Entry)
  /-- The machine starts afresh. -/
  | cleared
  deriving DecidableEq

namespace TraceEvent

/-- The entry that is told, unless it is said that the machine starts afresh. -/
def recorded? : TraceEvent → Option Entry
  | executed entry => some entry
  | cleared => none

/-- The entries since the machine last started afresh. -/
def recent (history : List TraceEvent) : List Entry :=
  (history.rtakeWhile fun event => event.recorded?.isSome).filterMap recorded?

/-- What has been told since the last fresh start, after one more event. -/
def after (told : List Entry) : TraceEvent → List Entry
  | executed entry => told ++ [entry]
  | cleared => []

theorem recent_concat (history : List TraceEvent) (event : TraceEvent) :
    recent (history ++ [event]) = after (recent history) event := by
  cases event with
  | executed entry =>
    unfold recent
    rw [List.rtakeWhile_concat_pos _ _ _ rfl, List.filterMap_append]
    rfl
  | cleared =>
    unfold recent
    rw [List.rtakeWhile_concat_neg _ _ _ (by simp [recorded?])]
    rfl

/-- Taking the events one after another comes to searching for the last fresh start. -/
theorem foldl_after (history : List TraceEvent) : history.foldl after [] = recent history := by
  induction history using List.reverseRecOn with
  | nil => rfl
  | append_singleton history event ih =>
    rw [List.foldl_append, ih, recent_concat]
    rfl

theorem foldl_executed (told entries : List Entry) :
    (entries.map executed).foldl after told = told ++ entries := by
  induction entries generalizing told with
  | nil => simp
  | cons entry rest ih =>
    rw [List.map_cons, List.foldl_cons, ih]
    simp [after]

end TraceEvent

/-- Each entry begins where the one before it has ended. -/
abbrev Linked (entries : List Entry) : Prop :=
  entries.IsChain fun earlier later => later.pc = earlier.registers.pc

namespace Machine

variable {isa : Isa} {m : Machine isa} {told : List Entry}

/-- The entries that a run of at most `n` instructions adds, one for each step. -/
def runEntries (m : Machine isa) : Nat → List Entry
  | 0 => []
  | n + 1 => m.step.2.toList ++ m.step.1.runEntries n

/-- The trace has been told of these entries since the machine started afresh. They follow one another,
and the machine stands where the last one has ended. -/
structure Tells (m : Machine isa) (told : List Entry) : Prop where
  records : m.trace.Records told
  linked : Linked told
  stands : ∀ entry ∈ told.getLast?, m.pc = entry.registers.pc

theorem Tells.of_same {m' : Machine isa} (h : m.Tells told) (htrace : m'.trace = m.trace)
    (hpc : m'.pc = m.pc) : m'.Tells told := by
  refine ⟨?_, h.linked, ?_⟩
  · rw [htrace]
    exact h.records
  · rw [hpc]
    exact h.stands

/-- After a fresh start nothing has been told, wherever the machine stands. -/
theorem tells_nil {m' : Machine isa} (h : m'.trace = m.trace.clear) : m'.Tells [] := by
  refine ⟨?_, .nil, nofun⟩
  rw [h]
  exact m.trace.records_clear

theorem Tells.step (h : m.Tells told) : m.step.1.Tells (told ++ m.step.2.toList) := by
  cases hrunning : m.state.isRunning with
  | false =>
    rw [step_of_not_running hrunning]
    simpa using h
  | true =>
    obtain ⟨entry, hentry, htrace, hpc, hregisters⟩ := step_entry hrunning
    rw [hentry]
    refine ⟨?_, ?_, ?_⟩
    · rw [htrace]
      exact h.records.push entry
    · refine List.isChain_append.mpr ⟨h.linked, .singleton entry, ?_⟩
      intro last hlast next hnext
      obtain rfl : entry = next := by simpa using hnext
      rw [hpc]
      exact h.stands last hlast
    · intro last hlast
      obtain rfl : entry = last := by simpa using hlast
      rw [hregisters]
      rfl

theorem Tells.run (h : m.Tells told) (n : Nat) : (m.run n).1.Tells (told ++ m.runEntries n) := by
  induction n generalizing m told with
  | zero => simpa [runEntries] using h
  | succ n ih =>
    rw [runEntries, ← List.append_assoc]
    have hstep := ih h.step
    cases hrunning : m.state.isRunning with
    | false =>
      rw [step_of_not_running hrunning] at hstep ⊢
      rw [run_of_not_running hrunning] at hstep ⊢
      exact hstep
    | true =>
      rw [run_succ hrunning]
      exact hstep

end Machine

end Octet
