import Octet.Proofs.Encoding.Literals
import Octet.Proofs.Placement.Boundaries

/-!
# Literals in a text

What a literal means does not depend on the rest of the text, with one exception: a label may have any
word for a name, and where a label has the name of a literal, the operand stands for the label.

The main statement is `literal_keeps_value`.
-/

namespace Octet.Assembly

variable {isa : Isa} {ls : List Line} {line : Line} {p : Program} {k : Nat} {mnemonic token : Token}
  {v : UInt8}

/-- The bytes of a line are bytes of the program. -/
theorem Layout.getElem?_bytes (h : Layout isa ls p) (hline : (instructionLines ls)[k]? = some line)
    {code : Code} (hmnemonic : line.mnemonic = some mnemonic)
    (hcode : isa.encode { address := UInt8.ofNat (start isa ls k), labels := p.labels } mnemonic
      (tokens line.operands) = .ok code) {i : Nat} (hi : i < code.bytes.length) :
    p.bytes[start isa ls k + i]? = code.bytes[i]? := by
  obtain ⟨hnext, hbytes⟩ := h.code_at hline hmnemonic hcode
  have hroom := h.start_add_size_le hline
  rw [← start_succ hline, hnext] at hroom
  unfold Program.bytes
  rw [List.getElem?_take_of_lt (by omega), getElem?_of_take_drop hbytes hi]

/-- **Literals keep their values.** Take a text that is assembled, and in it an instruction line with
a literal among its operands. If no label has the literal for its name, the second byte of the
instruction is that of the literal, or says how far it is from the end of a branch, whatever labels
there are. If a label has this name, the operand stands for the address of the label instead. -/
theorem literal_keeps_value {source : String} (h : assemble isa source = .ok p)
    (hline : (instructionLines (lines isa.commentMarks source.toList))[k]? = some line)
    (hmnemonic : line.mnemonic = some mnemonic)
    (htoken : isa.HasOperand mnemonic (tokens line.operands) token)
    (hliteral : literal token = .ok v) :
    let ls := lines isa.commentMarks source.toList
    let address := start isa ls k
    ∃ byte, p.bytes[address + 1]? = some byte ∧
      (token ∉ labelNames ls → isa.Encodes mnemonic address v byte) ∧
      ∀ before line' after, ls = before ++ line' :: after → line'.label = some token →
        isa.Encodes mnemonic address (UInt8.ofNat (extent isa before)) byte := by
  intro ls address
  have hlayout := layout_of_assemble h
  obtain ⟨mnemonic', code, hmnemonic', hcode, _⟩ := hlayout.code k line hline
  obtain rfl := Option.some.inj (hmnemonic'.symm.trans hmnemonic)
  obtain ⟨opcode, byte, rfl, hbyte⟩ := Isa.exists_encodes hcode htoken hliteral
  have hread := hlayout.getElem?_bytes hline hmnemonic hcode (i := 1) Nat.one_lt_two
  rw [hlayout.toNat_start hline] at hbyte
  refine ⟨byte, hread, ?_, ?_⟩
  · intro hnot
    have hnone : p.labels.address? token = none := by
      rw [Option.eq_none_iff_forall_ne_some]
      intro a ha
      obtain ⟨before, line', after, hls, hlabel, _⟩ := (hlayout.label token a).mp ha
      exact hnot (List.mem_filterMap.mpr ⟨line', by simp [ls, hls], hlabel⟩)
    rwa [Context.resolved_of_none hnone] at hbyte
  · intro before line' after hls hlabel
    have hsome := (hlayout.label token _).mpr ⟨before, line', after, hls, hlabel, rfl⟩
    rwa [Context.resolved_of_some hsome] at hbyte

/-- The value that is loaded at the start of `countdown`. -/
theorem literal_keeps_value_countdown :
    ∃ p, assemble .cdc6504 countdown = .ok p ∧ literal "3".toList = .ok 3 ∧
      "3".toList ∉ labelNames (lines Isa.cdc6504.commentMarks countdown.toList) ∧
      p.bytes[1]? = some 3 := by
  obtain ⟨p, hp⟩ := assemble_countdown
  have hmarked : Isa.cdc6504.HasOperand "LDX".toList ["#3".toList] "3".toList :=
    .inr ⟨⟨_, _, rfl⟩, rfl⟩
  have hliteral : literal "3".toList = .ok 3 := by rfl
  have hnot : "3".toList ∉ labelNames (lines Isa.cdc6504.commentMarks countdown.toList) := by decide
  obtain ⟨byte, hbyte, hvalue, _⟩ :=
    literal_keeps_value (k := 0) hp rfl rfl hmarked hliteral
  have hstraight : ¬ Isa.cdc6504.IsBranch "LDX".toList := by
    rintro ⟨opcode, hbranch⟩
    cases hbranch
  obtain rfl := (hvalue hnot).2 hstraight
  exact ⟨p, hp, hliteral, hnot, hbyte⟩

/-- A text with a label that has the name of a literal. -/
def fiveIsLabel : String := "5: HALT\nSET X0, 5"

/-- The operand of `SET` is a literal for the value 5, and is encoded as 0, the address of the label. -/
theorem literal_hidden_by_label :
    ∃ p, assemble .cdc8512 fiveIsLabel = .ok p ∧
      (∃ line, (instructionLines (lines Isa.cdc8512.commentMarks fiveIsLabel.toList))[1]? = some line ∧
        line.mnemonic = some "SET".toList ∧
        Isa.cdc8512.HasOperand "SET".toList (tokens line.operands) "5".toList) ∧
      literal "5".toList = .ok 5 ∧ p.bytes[1 + 1]? = some 0 ∧
      ¬ Isa.cdc8512.Encodes "SET".toList 1 5 0 := by
  refine ⟨_, rfl, ⟨_, rfl, rfl, .inl (by decide)⟩, rfl, rfl, ?_⟩
  intro hencodes
  exact absurd (hencodes.2 id) (by decide)

end Octet.Assembly
