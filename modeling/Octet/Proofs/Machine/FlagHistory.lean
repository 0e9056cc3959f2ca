import Mathlib.Data.List.Induction
import Octet.Proofs.Machine.Effect
import Octet.Proofs.Machine.Run

/-!
# What flags tell of the past

Flags are changed by a `FlagEvent`: a byte is written to a register, or two bytes are added, subtracted
or compared. The flags that a history of events leaves behind can be told in two ways, by applying
the events one after another, or by searching the history backwards for the latest event that each
of the flags depends on (`Flags.ofHistory`); `foldl_after` says that this is the same.

A step is at most one event (`step_flags`), and the events of a run are those of its steps
(`run_flags`).
-/

namespace Octet

/-- Something that changes flags. -/
inductive FlagEvent where
  /-- A byte is written to a register, and it is neither a sum nor a difference. -/
  | wrote (v : UInt8)
  /-- The sum is written to a register. -/
  | added (a b : UInt8)
  /-- The difference is written to a register. -/
  | subtracted (a b : UInt8)
  | compared (a b : UInt8)
  deriving DecidableEq

namespace FlagEvent

/-- The two bytes that are compared. -/
def compared? : FlagEvent → Option (UInt8 × UInt8)
  | compared a b => some (a, b)
  | _ => none

/-- The carry of a sum, and of a difference or a comparison that does not borrow. -/
def carry? : FlagEvent → Option Bool
  | wrote _ => none
  | added a b => some (255 < a.toNat + b.toNat)
  | subtracted a b => some (b.toNat ≤ a.toNat)
  | compared a b => some (b.toNat ≤ a.toNat)

/-- What is written, or the difference of what is compared, modulo 256. -/
def result : FlagEvent → UInt8
  | wrote v => v
  | added a b => UInt8.ofNat (a.toNat + b.toNat)
  | subtracted a b => UInt8.ofNat (256 + a.toNat - b.toNat)
  | compared a b => UInt8.ofNat (256 + a.toNat - b.toNat)

/-- What the latest event tells that tells anything of the kind. -/
def latest {α : Type} (tells : FlagEvent → Option α) (history : List FlagEvent) : Option α :=
  history.reverse.findSome? tells

theorem latest_concat {α : Type} (tells : FlagEvent → Option α) (history : List FlagEvent)
    (event : FlagEvent) : latest tells (history ++ [event]) = (tells event).or (latest tells history) := by
  simp only [latest, List.reverse_append, List.reverse_singleton, List.singleton_append,
    List.findSome?_cons]
  cases tells event <;> rfl

end FlagEvent

namespace Flags

open FlagEvent (latest)

/-- The flags after one more event. -/
def after (flags : Flags) : FlagEvent → Flags
  | .compared a b => flags.compare a b
  | event => (event.carry?.elim flags flags.setCarry).noteResult event.result

/-- The flags that a history leaves behind. The order is that of the two bytes compared last, carry,
zero and negative are those of the last event that has them. -/
def ofHistory (model : FlagModel) (history : List FlagEvent) : Flags :=
  match model with
  | .comparison =>
    comparison ((latest FlagEvent.compared? history).elim .eq fun (a, b) =>
      Ord.compare a.toNat b.toNat)
  | .statusBits =>
    let result := latest (some ∘ FlagEvent.result) history
    status (result.any (· == 0)) (result.any (128 ≤ ·))
      ((latest FlagEvent.carry? history).getD false)

theorem compare_toNat (a b : UInt8) : Ord.compare a.toNat b.toNat = Ord.compare a b := by
  show compareOfLessAndEq a.toNat b.toNat = compareOfLessAndEq a b
  simp only [compareOfLessAndEq, UInt8.lt_iff_toNat_lt, UInt8.toNat_inj]

theorem comparison_after (order : Ordering) (event : FlagEvent) :
    (comparison order).after event =
      comparison (event.compared?.elim order fun (a, b) => Ord.compare a.toNat b.toNat) := by
  cases event with
  | compared a b =>
    show comparison (Ord.compare a b) = comparison (Ord.compare a.toNat b.toNat)
    rw [compare_toNat]
  | wrote | added | subtracted => rfl

/-- A comparison notes the sign of the difference. -/
theorem status_after (zero negative carry : Bool) (event : FlagEvent) :
    (status zero negative carry).after event =
      status (event.result == 0) (128 ≤ event.result) (event.carry?.getD carry) := by
  cases event with
  | compared a b =>
    have hzero : (a == b) = (a - b == 0) := by
      rw [Bool.eq_iff_iff, beq_iff_eq, beq_iff_eq, UInt8.sub_eq_iff_eq_add, UInt8.zero_add]
    show status (a == b) (128 ≤ a - b) (b ≤ a) = _
    rw [hzero, FlagEvent.result, ofNat_sub_toNat]
    rfl
  | wrote | added | subtracted => rfl

theorem ofHistory_concat (model : FlagModel) (history : List FlagEvent) (event : FlagEvent) :
    ofHistory model (history ++ [event]) = (ofHistory model history).after event := by
  cases model with
  | comparison =>
    simp only [ofHistory, comparison_after, FlagEvent.latest_concat]
    cases event.compared? <;> rfl
  | statusBits =>
    simp only [ofHistory, status_after, FlagEvent.latest_concat]
    cases event.carry? <;> rfl

/-- Applying the events one after another comes to searching backwards for the latest. -/
theorem foldl_after (model : FlagModel) (history : List FlagEvent) :
    history.foldl after model.initial = ofHistory model history := by
  induction history using List.reverseRecOn with
  | nil => cases model <;> rfl
  | append_singleton history event ih =>
    rw [List.foldl_append, ih, ofHistory_concat]
    rfl

end Flags

namespace Machine

variable {isa : Isa} {m : Machine isa}

/-! ## Steps and runs -/

/-- The event that an operation is, if it is one. -/
def eventOf? (m : Machine isa) : Op → Option FlagEvent
  | .add dst src => some (.added (m.registers.read dst) (m.operand src))
  | .sub dst src => some (.subtracted (m.registers.read dst) (m.operand src))
  | .compare r src => some (.compared (m.registers.read r) (m.operand src))
  | op => (m.outcome? op).map fun outcome => .wrote outcome.2

/-- What the next step adds to the history. -/
def stepEvents (m : Machine isa) : List FlagEvent :=
  if m.state.isRunning then (m.eventOf? m.fetch.op).toList else []

/-- What a run of at most `n` instructions adds to the history. -/
def runEvents (m : Machine isa) : Nat → List FlagEvent
  | 0 => []
  | n + 1 => m.stepEvents ++ m.step.1.runEvents n

theorem follow_flags {i : Instruction} {flow : Flow} : (m.follow i flow).flags = m.flags := by
  cases flow <;> rfl

theorem execute_flags (m : Machine isa) (i : Instruction) :
    (m.execute i).1.flags = (m.eventOf? i.op).elim m.flags m.flags.after := by
  cases houtcome : m.outcome? i.op with
  | some outcome =>
    rw [execute_of_outcome houtcome]
    cases hop : i.op with
    | load | clear | add | sub | inc | dec | transfer =>
      rw [hop] at houtcome
      obtain rfl := Option.some.inj houtcome
      rfl
    | _ =>
      rw [hop] at houtcome
      cases houtcome
  | none =>
    unfold execute
    cases hop : i.op with
    | compare r src =>
      show m.flags.compare (m.registers.read r) (m.value src) = _
      rw [value_eq]
      rfl
    | halt | nop | store | jump | branch | unknown => rfl
    | _ =>
      rw [hop] at houtcome
      cases houtcome

theorem step_flags (m : Machine isa) : m.step.1.flags = m.stepEvents.foldl Flags.after m.flags := by
  by_cases h : m.state.isRunning
  · obtain ⟨trace, hstep⟩ := step_eq h
    have hflags : m.step.1.flags = (m.execute m.fetch).1.flags := by
      rw [hstep]
      exact follow_flags
    rw [hflags, execute_flags, stepEvents, if_pos h]
    cases m.eventOf? m.fetch.op <;> rfl
  · rw [step_of_not_running (by simpa using h), stepEvents, if_neg h]
    rfl

theorem run_flags (m : Machine isa) (n : Nat) :
    (m.run n).1.flags = (m.runEvents n).foldl Flags.after m.flags := by
  induction n generalizing m with
  | zero => rfl
  | succ n ih =>
    rw [runEvents, List.foldl_append, ← step_flags, ← ih]
    by_cases h : m.state.isRunning
    · rw [run_succ h]
    · have hstopped : m.state.isRunning = false := by simpa using h
      rw [step_of_not_running hstopped, run_of_not_running hstopped, run_of_not_running hstopped]

end Machine

end Octet
