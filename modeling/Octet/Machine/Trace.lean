import Octet.Flags
import Octet.Registers
import Octet.Text.Numeral

/-!
# Traces

A machine keeps an `Entry` for every instruction it executes, the faulting ones included. The
`Trace` may be switched off, and it may be limited to the latest entries.
-/

namespace Octet

/-- The registers of a machine at one moment. -/
structure Registers where
  pc : UInt8
  file : RegisterFile
  flags : Flags
  deriving DecidableEq

namespace Registers

/-- The values of the declared registers under their names. -/
def named (registers : Registers) (layout : RegisterLayout) : List (String × UInt8) :=
  layout.names.zip registers.file.toList

/-- The registers on one line, such as `PC=04 A0=01 … CMP==`. -/
def render (registers : Registers) (layout : RegisterLayout) : String :=
  let values := (registers.named layout).map fun r => " " ++ r.1 ++ "=" ++ Text.hexUpper r.2
  "PC=" ++ Text.hexUpper registers.pc ++ String.join values ++ " " ++ registers.flags.render

end Registers

/-- What is recorded of an executed instruction. -/
structure Entry where
  /-- The address of the instruction. -/
  pc : UInt8
  /-- Its bytes, one or two. -/
  bytes : List UInt8
  text : String
  /-- The registers after it. -/
  registers : Registers
  deriving DecidableEq

/-- An entry on one line: address, bytes and text. A single byte is followed by as much space as a
second one would take. -/
def Entry.render (entry : Entry) : String :=
  let bytes := String.join (entry.bytes.map fun b => " " ++ Text.hexUpper b)
  let gap := if entry.bytes.length = 1 then "   " else ""
  Text.hexUpper entry.pc ++ ":" ++ bytes ++ gap ++ "  " ++ entry.text

/-- A record of executed instructions. Somewhat more may be stored than is shown, so that old
entries need not be dropped one at a time. -/
structure Trace where
  enabled : Bool
  /-- The most entries that are shown, all of them if there is no limit. -/
  limit : Option Nat
  /-- What is stored, oldest first. -/
  stored : Array Entry := #[]
  deriving DecidableEq

namespace Trace

/-- The last elements of an array, at most so many. -/
def lastOf (count : Nat) (entries : Array Entry) : Array Entry :=
  entries.extract (entries.size - count) entries.size

/-- The latest entries, oldest first. -/
def entries (trace : Trace) : List Entry :=
  match trace.limit with
  | none => trace.stored.toList
  | some limit => (lastOf limit trace.stored).toList

/-- What stays stored. Nothing is dropped before there is twice as much as is shown. -/
def trim (trace : Trace) : Trace :=
  match trace.limit with
  | none => trace
  | some limit =>
    if trace.stored.size < 2 * limit then trace
    else { trace with stored := lastOf limit trace.stored }

/-- Records an entry. -/
def push (trace : Trace) (entry : Entry) : Trace :=
  if trace.enabled = false ∨ trace.limit = some 0 then trace
  else { trace with stored := trace.stored.push entry }.trim

/-- Drops all entries. -/
def clear (trace : Trace) : Trace :=
  { trace with stored := #[] }

/-- The latest entry. -/
def last? (trace : Trace) : Option Entry :=
  trace.entries.getLast?

/-! ## What keeps the settings -/

theorem clear_trim (trace : Trace) : trace.trim.clear = trace.clear := by
  unfold trim
  split
  · rfl
  · split <;> rfl

theorem clear_push (trace : Trace) (entry : Entry) : (trace.push entry).clear = trace.clear := by
  unfold push
  split
  · rfl
  · exact clear_trim _

/-- What is left of a trace that is cleared are its settings. -/
theorem settings_eq_of_clear_eq {trace trace' : Trace} (h : trace.clear = trace'.clear) :
    trace.enabled = trace'.enabled ∧ trace.limit = trace'.limit :=
  ⟨(congrArg Trace.enabled h :), (congrArg Trace.limit h :)⟩

end Trace

end Octet
