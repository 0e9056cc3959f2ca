import Octet.Operation
import Octet.Text.Numeral

/-!
# Decode tables

An instruction set is decoded by a list of `Opcode` rules. A rule looks at the bits of the first
byte that are set in its mask; the first rule of the list that matches wins, and bytes that no rule
matches decode to `Op.unknown`, so decoding is total.

A table can be examined: `DecodeTable.shadowed` lists the pairs of rules that a byte could fall to
both of, and `DecodeTable.isPriorityOrdered` says whether more specific rules come first.
-/

namespace Octet

/-- A rule for decoding. -/
structure Opcode where
  name : String
  /-- The bits that are looked at. -/
  mask : UInt8
  /-- The values these bits must have. -/
  pattern : UInt8
  /-- The number of bytes of the instruction. -/
  size : UInt8
  /-- The operation, from the first byte and the byte after it. -/
  meaning : UInt8 → UInt8 → Op

namespace Opcode

/-- Whether the rule applies to a first byte. -/
def applies (rule : Opcode) (raw : UInt8) : Bool :=
  raw &&& rule.mask == rule.pattern

/-- The instruction that the rule makes of two bytes. -/
def decode (rule : Opcode) (raw next : UInt8) : Instruction :=
  { raw, next, name := rule.name, size := rule.size, op := rule.meaning raw next }

/-- Whether two rules ask for the same values of the bits that both look at. -/
def overlaps (a b : Opcode) : Bool :=
  let common := a.mask &&& b.mask
  a.pattern &&& common == b.pattern &&& common

/-- The number of bits that the rule looks at. -/
def specificity (rule : Opcode) : Nat :=
  ((List.range 8).filter fun i => rule.mask.toNat.testBit i).length

/-- The rule, for a log. -/
def describe (rule : Opcode) : String :=
  Text.record "OpcodeDef" [("name", Text.quoted rule.name),
    ("mask", "0x" ++ Text.hexUpper rule.mask), ("match_val", "0x" ++ Text.hexUpper rule.pattern),
    ("size", Text.decimal rule.size)]

end Opcode

/-- A named list of rules, in the order in which they are tried. -/
structure DecodeTable where
  name : String
  opcodes : List Opcode

namespace DecodeTable

/-- The instruction that two bytes stand for. -/
def decode (table : DecodeTable) (raw next : UInt8) : Instruction :=
  match table.opcodes.find? (·.applies raw) with
  | some rule => rule.decode raw next
  | none => .unknown raw next

/-- The pairs of overlapping rules, given that `before` come before the rest. -/
def shadowedAfter (before : List Opcode) : List Opcode → List (Opcode × Opcode)
  | [] => []
  | rule :: rest =>
    ((before.filter (·.overlaps rule)).map fun earlier => (earlier, rule))
      ++ shadowedAfter (before ++ [rule]) rest

/-- The pairs of overlapping rules, an earlier rule with a later one: ordered by the later one and
then by the earlier one. -/
def shadowed (table : DecodeTable) : List (Opcode × Opcode) :=
  shadowedAfter [] table.opcodes

/-- Whether no rule looks at more bits than the rule before it. -/
def isOrderedList : List Opcode → Bool
  | a :: b :: rest => b.specificity ≤ a.specificity && isOrderedList (b :: rest)
  | _ => true

/-- Whether no rule of the table looks at more bits than the rule before it. -/
def isPriorityOrdered (table : DecodeTable) : Bool :=
  isOrderedList table.opcodes

/-- The table, for a log. -/
def describe (table : DecodeTable) : String :=
  Text.record "DecodeTable" [("name", Text.quoted table.name),
    ("defs", toString table.opcodes.length)]

end DecodeTable

end Octet
