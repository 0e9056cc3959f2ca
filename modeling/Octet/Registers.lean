import Octet.Text.Case

/-!
# Registers

A machine has at most eight byte-wide registers. `RegisterFile` holds their values; a
`RegisterLayout` says which registers an instruction set declares, what they are called, and which
of them are *address registers*: registers whose writing also reads or writes the data memory.

A register is known by its number. The file takes the number modulo eight, so every number names
one of its eight cells; a number that the layout does not declare has no name and no role.
-/

namespace Octet

/-- The number of a register. -/
abbrev Reg := UInt8

/-! ## Values -/

/-- The values of eight registers. -/
structure RegisterFile where
  cells : Vector UInt8 8
  deriving DecidableEq

namespace RegisterFile

/-- The number of registers in a file. -/
def capacity : Nat := 8

/-- The file that holds only zeros. -/
def zero : RegisterFile := ⟨Vector.replicate 8 0⟩

instance : Inhabited RegisterFile := ⟨zero⟩

/-- The value of a register. -/
def read (file : RegisterFile) (r : Reg) : UInt8 :=
  getElem file.cells (r.toNat % 8) (Nat.mod_lt _ (by decide))

/-- The file with one register replaced. -/
def write (file : RegisterFile) (r : Reg) (value : UInt8) : RegisterFile :=
  ⟨file.cells.set (r.toNat % 8) value (Nat.mod_lt _ (by decide))⟩

/-- The values in the order of the registers. -/
def toList (file : RegisterFile) : List UInt8 :=
  file.cells.toList

/-- The file with these values, if there are exactly eight of them. -/
def ofList? (values : List UInt8) : Option RegisterFile :=
  if h : values.length = 8 then some ⟨⟨values.toArray, by simpa using h⟩⟩ else none

theorem read_write (file : RegisterFile) (r s : Reg) (v : UInt8) :
    (file.write r v).read s = if r.toNat % 8 = s.toNat % 8 then v else file.read s := by
  simp only [read, write, Vector.getElem_set]

@[simp]
theorem read_write_self (file : RegisterFile) (r : Reg) (v : UInt8) :
    (file.write r v).read r = v := by
  simp [read_write]

theorem read_write_of_ne (file : RegisterFile) {r s : Reg} (v : UInt8) (hr : r < 8) (hs : s < 8)
    (h : s ≠ r) : (file.write r v).read s = file.read s := by
  have hne : r.toNat ≠ s.toNat := fun heq => h (UInt8.toNat_inj.mp heq.symm)
  rw [UInt8.lt_iff_toNat_lt, show (8 : UInt8).toNat = 8 from rfl] at hr hs
  rw [read_write, Nat.mod_eq_of_lt hr, Nat.mod_eq_of_lt hs, if_neg hne]

@[simp]
theorem read_zero (r : Reg) : zero.read r = 0 := by
  simp [read, zero]

@[simp]
theorem ofList?_toList (file : RegisterFile) : ofList? file.toList = some file := by
  rcases file with ⟨⟨cells, h⟩⟩
  simp [ofList?, toList, h]

end RegisterFile

/-! ## Names and roles -/

/-- What writing a register does beyond changing its value. -/
inductive Role where
  /-- Nothing. -/
  | data
  /-- The data byte at the new value is then loaded into the paired register. -/
  | load (paired : Reg)
  /-- The paired register is then stored to the data byte at the new value. -/
  | store (paired : Reg)
  deriving DecidableEq

/-- Whether writing the register reaches the data memory. -/
def Role.isAddress : Role → Bool
  | .data => false
  | .load _ => true
  | .store _ => true

/-- The registers that an instruction set declares. -/
structure RegisterLayout where
  /-- The names, in the order of the numbers. -/
  names : List String
  /-- Further spellings that are accepted for a register. -/
  aliases : List (String × Reg)
  /-- The roles, in the order of the numbers. -/
  roles : List Role
  /-- Address registers have to stay below this value. -/
  addressLimit : Option UInt8

namespace RegisterLayout

/-- The number of declared registers. -/
def count (layout : RegisterLayout) : Nat :=
  layout.names.length

/-- The register with this name or alias, in either case of letters. -/
def register? (layout : RegisterLayout) (name : List Char) : Option Reg :=
  match layout.names.findIdx? fun n => Text.sameLetters n.toList name with
  | some i => some (UInt8.ofNat i)
  | none => (layout.aliases.find? fun a => Text.sameLetters a.1.toList name).map (·.2)

/-- The name of a register, a question mark where it is not declared. -/
def name (layout : RegisterLayout) (r : Reg) : String :=
  layout.names.getD r.toNat "?"

/-- The role of a register. One that is not declared is a data register. -/
def role (layout : RegisterLayout) (r : Reg) : Role :=
  layout.roles.getD r.toNat .data

/-- The declared address registers, in increasing order. -/
def addressRegisters (layout : RegisterLayout) : List Reg :=
  ((List.range layout.count).map UInt8.ofNat).filter fun r => (layout.role r).isAddress

end RegisterLayout

end Octet
