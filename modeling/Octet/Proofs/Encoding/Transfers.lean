import Octet.Proofs.Encoding.RoundTrip
import Octet.Proofs.Machine.Step

/-!
# Where jumps and branches go

The operations that may go elsewhere are denoted by the names in `Isa.transfers` only, and they go
where their one operand says: to a label, or to an address. For branches this means that counting
the distance from the end of the instruction undoes what the encoder has done.
-/

namespace Octet

open Assembly (Context)

/-- The names of the jumps and branches. -/
def Isa.transfers : Isa → List String
  | .cdc8512 => ["JE", "JL", "JG", "JP"]
  | .cdc6504 => ["BEQ", "BNE", "BMI", "BPL", "BCC", "BCS", "JMP"]

/-- The jumps and branches with the conditions on which they are taken. -/
def Isa.conditions : Isa → List (String × Condition)
  | .cdc8512 => [("JE", .equal), ("JL", .less), ("JG", .greater), ("JP", .always)]
  | .cdc6504 =>
    [("BEQ", .zero), ("BNE", .notZero), ("BMI", .negative), ("BPL", .positive),
      ("BCC", .carryClear), ("BCS", .carrySet), ("JMP", .always)]

theorem Isa.map_fst_conditions (isa : Isa) : isa.conditions.map (·.1) = isa.transfers := by
  cases isa <;> rfl

/-- An operation that goes on with the instruction behind it, if it goes on at all. -/
def Op.IsStraight (op : Op) : Prop :=
  ∀ behind, op.target? behind = none

variable {isa : Isa} {ctx : Context} {name : String} {operands : List Token} {op : Op}
  {behind target : UInt8} {condition : Condition}

/-! ## The CDC8512 -/

namespace Cdc8512

/-- A sense that is not straight is that of a jump. -/
theorem senses_straight : ∀ entry ∈ senses, entry.2.All Op.IsStraight ∨
    ∃ condition, entry.2 = .jump condition ∧ entry.1 ∈ Isa.cdc8512.transfers := by
  simp [senses, Sense.All, Op.IsStraight, Op.target?, Isa.transfers]

theorem Denotes.operand_of_target? (h : Denotes ctx name operands op)
    (htarget : op.target? behind = some target) :
    name ∈ Isa.cdc8512.transfers ∧ ∃ token, operands = [token] ∧ ctx.target token = .ok target := by
  obtain ⟨sense, hmem, hreads⟩ := h
  rcases senses_straight _ hmem with hstraight | ⟨condition, hjump, hname⟩
  · cases (hstraight.of_reads hreads behind).symm.trans htarget
  · obtain rfl : sense = .jump condition := hjump
    cases hreads with
    | jump ht =>
      obtain rfl := Option.some.inj htarget
      exact ⟨hname, _, rfl, ht⟩

theorem jump_mem_senses :
    ∀ entry ∈ Isa.cdc8512.conditions, (entry.1, .jump entry.2) ∈ senses := by
  simp [Isa.conditions, senses]

theorem Denotes.goes_to (h : Denotes ctx name operands op)
    (hname : (name, condition) ∈ Isa.cdc8512.conditions) :
    op.condition? = some condition ∧ ∃ token target, operands = [token] ∧
      ctx.target token = .ok target ∧ op.target? (ctx.address + 2) = some target := by
  obtain ⟨sense, hmem, hreads⟩ := h
  obtain rfl := Vocabulary.eq_of_mem (by decide) hmem (jump_mem_senses _ hname)
  cases hreads with
  | jump ht => exact ⟨rfl, _, _, rfl, ht, rfl⟩

end Cdc8512

/-! ## The CDC6504 -/

namespace Cdc6504

/-- A sense that is not straight is that of a jump or of a branch. -/
theorem senses_straight : ∀ entry ∈ senses, entry.2.All Op.IsStraight ∨
    (entry.2 = .jump ∨ ∃ condition, entry.2 = .branch condition) ∧
      entry.1 ∈ Isa.cdc6504.transfers := by
  simp [senses, Sense.All, Op.IsStraight, Op.target?, Isa.transfers]

/-- Adding a distance to where it is counted from gives the target, modulo 256. -/
theorem add_offset {address : UInt8} {offset : Int8}
    (h : offset.toInt = target.toNat - (address.toNat + 2)) :
    address + 2 + offset.toUInt8 = target := by
  have hsigned : offset.toInt = if 2 * offset.toUInt8.toNat < 256 then (offset.toUInt8.toNat : Int)
      else offset.toUInt8.toNat - 256 := BitVec.toInt_eq_toNat_cond _
  have haddress := address.toNat_lt
  have htarget := target.toNat_lt
  have hoffset := offset.toUInt8.toNat_lt
  have htwo : (2 : UInt8).toNat = 2 := rfl
  -- both sides are the same number modulo 256
  apply UInt8.toNat_inj.mp
  rw [UInt8.toNat_add, UInt8.toNat_add, htwo]
  rw [h] at hsigned
  split at hsigned <;> omega

/-- The distance of a branch is counted from the end of its two bytes. -/
theorem Denotes.operand_of_target? (h : Denotes ctx name operands op)
    (htarget : op.target? behind = some target) :
    name ∈ Isa.cdc6504.transfers ∧ ∃ token, operands = [token] ∧
      (behind = ctx.address + 2 → ctx.target token = .ok target) := by
  obtain ⟨sense, hmem, hreads⟩ := h
  rcases senses_straight _ hmem with hstraight | ⟨hjump | ⟨condition, hbranch⟩, hname⟩
  · cases (hstraight.of_reads hreads behind).symm.trans htarget
  · obtain rfl : sense = .jump := hjump
    cases hreads with
    | jump ht =>
      obtain rfl := Option.some.inj htarget
      exact ⟨hname, _, rfl, fun _ => ht⟩
  · obtain rfl : sense = .branch condition := hbranch
    cases hreads with
    | branch ht hoffset =>
      refine ⟨hname, _, rfl, ?_⟩
      rintro rfl
      obtain rfl := (add_offset hoffset).symm.trans (Option.some.inj htarget)
      exact ht

theorem branch_mem_senses : ∀ entry ∈ Isa.cdc6504.conditions,
    (entry.1, .branch entry.2) ∈ senses ∨ (entry.1, .jump) ∈ senses ∧ entry.2 = .always := by
  simp [Isa.conditions, senses]

theorem Denotes.goes_to (h : Denotes ctx name operands op)
    (hname : (name, condition) ∈ Isa.cdc6504.conditions) :
    op.condition? = some condition ∧ ∃ token target, operands = [token] ∧
      ctx.target token = .ok target ∧ op.target? (ctx.address + 2) = some target := by
  obtain ⟨sense, hmem, hreads⟩ := h
  rcases branch_mem_senses _ hname with hbranch | ⟨hjump, rfl⟩
  · obtain rfl := Vocabulary.eq_of_mem (by decide) hmem hbranch
    cases hreads with
    | branch ht hoffset => exact ⟨rfl, _, _, rfl, ht, congrArg some (add_offset hoffset)⟩
  · obtain rfl := Vocabulary.eq_of_mem (by decide) hmem hjump
    cases hreads with
    | jump ht => exact ⟨rfl, _, _, rfl, ht, rfl⟩

end Cdc6504

/-! ## Both -/

theorem Isa.size_of_transfer (isa : Isa) :
    ∀ entry ∈ isa.mnemonics, entry.1 ∈ isa.transfers → entry.2 = 2 := by
  cases isa <;> decide

/-- An operation that may go elsewhere is denoted by the name of a jump or branch with one operand,
and goes where the operand says. -/
theorem Isa.Denotes.operand_of_target? {size : UInt8} (h : isa.Denotes ctx name operands op)
    (hsize : (name, size) ∈ isa.mnemonics) (htarget : op.target? (ctx.address + size) = some target) :
    name ∈ isa.transfers ∧ ∃ token, operands = [token] ∧ ctx.target token = .ok target := by
  cases isa with
  | cdc8512 => exact Cdc8512.Denotes.operand_of_target? h htarget
  | cdc6504 =>
    obtain ⟨hname, token, hoperands, ht⟩ := Cdc6504.Denotes.operand_of_target? h htarget
    obtain rfl := cdc6504.size_of_transfer _ hsize hname
    exact ⟨hname, token, hoperands, ht rfl⟩

/-- A jump or branch has a condition, and goes where its one operand says. -/
theorem Isa.Denotes.goes_to (h : isa.Denotes ctx name operands op)
    (hname : (name, condition) ∈ isa.conditions) :
    op.condition? = some condition ∧ ∃ token target, operands = [token] ∧
      ctx.target token = .ok target ∧ op.target? (ctx.address + 2) = some target := by
  cases isa with
  | cdc8512 => exact Cdc8512.Denotes.goes_to h hname
  | cdc6504 => exact Cdc6504.Denotes.goes_to h hname

end Octet
