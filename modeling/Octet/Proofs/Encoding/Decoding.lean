import Octet.Isa

/-!
# What is decoded at all

Whatever two bytes hold, an instruction of one byte or two is decoded (`Isa.size_decode`), which takes
its bytes from them (`Isa.bytes_decode`).

The operations of `Op` serve both instruction sets, and each of the two decodes to some of them only.
A property of the rules of a table is one of all that is decoded with it (`DecodeTable.op_decode`).
`Cdc8512.Executes` lists the operations of the CDC8512 in this way.
-/

namespace Octet

/-! ## The bytes of what is decoded -/

theorem DecodeTable.raw_decode (table : DecodeTable) (raw next : UInt8) :
    (table.decode raw next).raw = raw := by
  unfold decode
  split <;> rfl

theorem DecodeTable.next_decode (table : DecodeTable) (raw next : UInt8) :
    (table.decode raw next).next = next := by
  unfold decode
  split <;> rfl

namespace Isa

/-- What is decoded has one byte or two. -/
theorem size_decode (isa : Isa) (raw next : UInt8) :
    (isa.decode raw next).size = 1 ∨ (isa.decode raw next).size = 2 := by
  have hrules : ∀ rule ∈ isa.table.opcodes, rule.size = 1 ∨ rule.size = 2 := by
    cases isa <;> decide
  unfold decode DecodeTable.decode
  split
  · next rule hfind => exact hrules rule (List.mem_of_find?_eq_some hfind)
  · exact .inl rfl

theorem bytes_decode (isa : Isa) (raw next : UInt8) :
    (isa.decode raw next).bytes ≠ [] ∧ (isa.decode raw next).bytes <+: [raw, next] := by
  unfold Instruction.bytes decode
  rw [isa.table.raw_decode, isa.table.next_decode]
  split
  · exact ⟨nofun, List.prefix_rfl⟩
  · exact ⟨nofun, List.prefix_append [raw] [next]⟩

theorem length_bytes_decode (isa : Isa) (raw next : UInt8) :
    (isa.decode raw next).bytes.length = (isa.decode raw next).size.toNat := by
  unfold Instruction.bytes
  rcases isa.size_decode raw next with hsize | hsize <;> rw [hsize] <;> rfl

end Isa

/-! ## Its operation -/

/-- What all rules give, and what stands for no rule, is all that is decoded. -/
theorem DecodeTable.op_decode {P : Op → Prop} {table : DecodeTable} (hunknown : P .unknown)
    (hrules : ∀ rule ∈ table.opcodes, ∀ raw next, P (rule.meaning raw next)) (raw next : UInt8) :
    P (table.decode raw next).op := by
  unfold DecodeTable.decode
  split
  · next rule hfind => exact hrules rule (List.mem_of_find?_eq_some hfind) raw next
  · exact hunknown

namespace Cdc8512

/-- The operations that a CDC8512 executes. Sums and differences of two registers are there for data
registers only. -/
inductive Executes : Op → Prop where
  | halt : Executes .halt
  | nop : Executes .nop
  | load {r} (hr : r < 8) (b) : Executes (.load r (.immediate b))
  | clear {r} (hr : r < 8) : Executes (.clear r)
  | add {r} (hr : r < 8) (b) : Executes (.add r (.immediate b))
  | sub {r} (hr : r < 8) (b) : Executes (.sub r (.immediate b))
  | addData {dst} (hdst : 4 ≤ dst ∧ dst < 8) (src) : Executes (.add dst (.register src))
  | subData {dst} (hdst : 4 ≤ dst ∧ dst < 8) (src) : Executes (.sub dst (.register src))
  | inc {r} (hr : r < 8) : Executes (.inc r)
  | dec {r} (hr : r < 8) : Executes (.dec r)
  | compare (r b) : Executes (.compare r (.immediate b))
  | transfer {dst src} (hdst : dst < 8) (hsrc : src < 8) : Executes (.transfer dst src)
  | jump (condition target) : Executes (.jump condition target)
  | unknown : Executes .unknown

theorem lowRegister_lt (raw : UInt8) : lowRegister raw < 8 := by
  rw [lowRegister, UInt8.lt_iff_toNat_lt, UInt8.toNat_and]
  exact Nat.lt_succ_of_le Nat.and_le_right

theorem highRegister_lt (raw : UInt8) : highRegister raw < 8 :=
  lowRegister_lt (raw >>> 3)

theorem highData_range (raw : UInt8) : 4 ≤ highData raw ∧ highData raw < 8 := by
  have hfield : (raw >>> 2 &&& 3).toNat ≤ 3 := by
    rw [UInt8.toNat_and]
    exact Nat.and_le_right
  have hfour : (4 : UInt8).toNat = 4 := rfl
  have height : (8 : UInt8).toNat = 8 := rfl
  rw [highData, UInt8.le_iff_toNat_le, UInt8.lt_iff_toNat_lt, UInt8.toNat_add]
  omega

theorem executes_decode (raw next : UInt8) : Executes (table.decode raw next).op := by
  apply DecodeTable.op_decode .unknown
  simp only [table, List.forall_mem_cons]
  refine ⟨?halt, ?data, ?je, ?jl, ?jg, ?jp, ?zero, ?cmpz, ?inc, ?dec, ?set, ?cmp, ?add, ?sub,
    ?addData, ?subData, ?mov, nofun⟩
  case halt => exact fun _ _ => .halt
  case data => exact fun _ _ => .nop
  case je | jl | jg | jp => exact fun _ next => .jump _ next
  case zero => exact fun raw _ => .clear (lowRegister_lt raw)
  case cmpz => exact fun raw _ => .compare (lowRegister raw) 0
  case inc => exact fun raw _ => .inc (lowRegister_lt raw)
  case dec => exact fun raw _ => .dec (lowRegister_lt raw)
  case set => exact fun raw next => .load (lowRegister_lt raw) next
  case cmp => exact fun raw next => .compare (lowRegister raw) next
  case add => exact fun raw next => .add (lowRegister_lt raw) next
  case sub => exact fun raw next => .sub (lowRegister_lt raw) next
  case addData => exact fun raw _ => .addData (highData_range raw) (lowData raw)
  case subData => exact fun raw _ => .subData (highData_range raw) (lowData raw)
  case mov => exact fun raw _ => .transfer (highRegister_lt raw) (lowRegister_lt raw)

end Cdc8512

end Octet
