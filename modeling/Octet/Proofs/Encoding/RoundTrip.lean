import Octet.Isa
import Octet.Proofs.Encoding.Cdc6504
import Octet.Proofs.Encoding.Cdc8512

/-!
# Decoding what was encoded

Both instruction sets under one roof. `Isa.Denotes` is the language of an instruction set, and
`Isa.decode_of_encode` says that encoding and then decoding comes to what the operands denote.

The main statement is `decode_encode`: an encoder of a known mnemonic writes as many bytes as the
size of the mnemonic says, and these bytes, whatever follows them, are decoded to the one operation
that the operands denote.
-/

namespace Octet.Isa

open Assembly (Context Cause BlamesOperands)

variable {isa : Isa} {ctx : Context} {name : String} {mnemonic : Token} {operands : List Token}
  {op : Op} {code : Code}

/-- The operation that a name with its operands stands for. -/
def Denotes : Isa → Context → String → List Token → Op → Prop
  | cdc8512 => Cdc8512.Denotes
  | cdc6504 => Cdc6504.Denotes

theorem Denotes.unique {op' : Op} (h : isa.Denotes ctx name operands op)
    (h' : isa.Denotes ctx name operands op') : op' = op := by
  cases isa with
  | cdc8512 => exact Cdc8512.Denotes.unique h h'
  | cdc6504 => exact Cdc6504.Denotes.unique h h'

theorem Denotes.ne_unknown (h : isa.Denotes ctx name operands op) : op ≠ .unknown := by
  cases isa with
  | cdc8512 => exact Cdc8512.Denotes.ne_unknown h
  | cdc6504 => exact Cdc6504.Denotes.ne_unknown h

/-- The size of a mnemonic is found under its name. -/
theorem size?_of_mem {size : UInt8} (h : (name, size) ∈ isa.mnemonics) :
    isa.size? name.toList = some size := by
  refine Vocabulary.formAnyCase?_of_mem ?_ h
  cases isa <;> decide

/-- Names are written in upper case. -/
theorem upper_name {size : UInt8} (h : (name, size) ∈ isa.mnemonics) :
    Text.upper name.toList = name.toList := by
  have hnames : ∀ entry ∈ isa.mnemonics, Text.upper entry.1.toList = entry.1.toList := by
    cases isa <;> decide
  exact hnames _ h

/-- A known mnemonic in upper case is a name of the vocabulary. -/
theorem mem_of_size? {size : UInt8} (h : isa.size? mnemonic = some size)
    (hupper : Text.upper mnemonic = mnemonic) :
    ∃ name, name.toList = mnemonic ∧ (name, size) ∈ isa.mnemonics := by
  obtain ⟨⟨name, _⟩, hfind, rfl⟩ := Option.map_eq_some_iff.mp h
  have hmem := List.mem_of_find?_eq_some hfind
  have hsame : Text.upper name.toList = Text.upper mnemonic := by
    simpa [Text.sameLetters] using List.find?_some hfind
  exact ⟨name, (upper_name hmem).symm.trans (hsame.trans hupper), hmem⟩

/-- An encoded instruction has the size of its mnemonic, and is decoded to what it denotes. -/
theorem decode_of_encode (h : isa.encode ctx mnemonic operands = .ok code) :
    ∃ name op, mnemonic = name.toList ∧ (name, code.size) ∈ isa.mnemonics ∧
      isa.Denotes ctx name operands op ∧ isa.table.DecodesTo name op code := by
  cases isa with
  | cdc8512 =>
    obtain ⟨name, form, op, rfl, hmem, hsize, hdenotes, hdecode⟩ := Cdc8512.decode_of_encode h
    exact ⟨name, op, rfl, List.mem_map.mpr ⟨_, hmem, by rw [hsize]⟩, hdenotes, hdecode⟩
  | cdc6504 =>
    obtain ⟨name, form, op, rfl, hmem, hsize, hdenotes, hdecode⟩ := Cdc6504.decode_of_encode h
    exact ⟨name, op, rfl, List.mem_map.mpr ⟨_, hmem, by rw [hsize]⟩, hdenotes, hdecode⟩

theorem blamesOperands_encode {size : UInt8} (h : (name, size) ∈ isa.mnemonics) :
    BlamesOperands (isa.encode ctx name.toList operands) := by
  cases isa with
  | cdc8512 =>
    obtain ⟨⟨_, form⟩, hmem, heq⟩ := List.mem_map.mp h
    obtain ⟨rfl, _⟩ := Prod.mk.inj heq
    exact Cdc8512.blamesOperands_encode hmem
  | cdc6504 =>
    obtain ⟨⟨_, form⟩, hmem, heq⟩ := List.mem_map.mp h
    obtain ⟨rfl, _⟩ := Prod.mk.inj heq
    exact Cdc6504.blamesOperands_encode hmem

/-- **Encoding and decoding agree.** A mnemonic of the vocabulary is never unknown to the encoder.
If the encoder succeeds, the code has the size of the mnemonic, and decoding it, whatever byte may
follow, gives an instruction of this name and size. The operation, which is known, is the one and
only that the operands denote. -/
theorem decode_encode {size : UInt8} (hname : (name, size) ∈ isa.mnemonics) (ctx : Context)
    (operands : List Token) :
    (∀ m, isa.encode ctx name.toList operands ≠ .error (.unknownInstruction m)) ∧
    ∀ code, isa.encode ctx name.toList operands = .ok code →
      isa.size? name.toList = some code.size ∧
      ∃ op, op ≠ .unknown ∧ (∀ op', isa.Denotes ctx name operands op' ↔ op' = op) ∧
        ∀ next, isa.decode code.first (code.second next) =
          { raw := code.first, next := code.second next, name, size := code.size, op } := by
  constructor
  · intro m h
    have hblames := blamesOperands_encode hname _ h
    cases hblames
  · intro code h
    obtain ⟨name', op, hnames, hmem, hdenotes, hdecode⟩ := decode_of_encode h
    obtain rfl := String.toList_inj.mp hnames
    refine ⟨size?_of_mem hmem, op, hdenotes.ne_unknown, fun op' => ?_, hdecode.decode⟩
    constructor
    · exact hdenotes.unique
    · rintro rfl
      exact hdenotes

/-- `STA ACC, buf, Y` with `buf` at 200: the working register in front, a label, an index. -/
theorem decode_encode_sta :
    let ctx : Context := { address := 7, labels := [("buf".toList, 200)] }
    let operands : List Token := ["ACC".toList, "buf".toList, "Y".toList]
    ("STA", 2) ∈ cdc6504.mnemonics ∧
      cdc6504.encode ctx "STA".toList operands = .ok (.two 0x99 200) ∧
      (∀ op, cdc6504.Denotes ctx "STA" operands op ↔ op = .store Cdc6504.acc 200 (some Cdc6504.y)) ∧
      cdc6504.decode 0x99 200 = { raw := 0x99, next := 200, name := "STA", size := 2,
                                  op := .store Cdc6504.acc 200 (some Cdc6504.y) } := by
  intro ctx operands
  have hname : ("STA", 2) ∈ cdc6504.mnemonics := by decide
  have hcode : cdc6504.encode ctx "STA".toList operands = .ok (.two 0x99 200) := by decide
  obtain ⟨_, op, _, hop, hdecode⟩ := (decode_encode hname ctx operands).2 _ hcode
  obtain rfl : op = .store Cdc6504.acc 200 (some Cdc6504.y) :=
    (congrArg Instruction.op (hdecode 0)).symm
  exact ⟨hname, hcode, hop, hdecode 0⟩

end Octet.Isa
