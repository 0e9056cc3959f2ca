import Octet.Proofs.Placement.Image

/-!
# What assembling comes to

`Assemblable` says which texts can be assembled, and `Layout` what a program has to do with its
text. Both speak of the lines of the text and of the encoder only.

The main statement is `assemble_layout`: a text is assembled exactly if it is assemblable, and then
every instruction line stands where the sizes of the lines before it put it, encoded at that
address.
-/

namespace Octet.Assembly

/-- What has to be right for a text to be assembled. -/
structure Assemblable (isa : Isa) (ls : List Line) : Prop extends Placeable isa ls where
  /-- Each instruction line can be encoded where it starts, under the labels of the whole text. -/
  encodes : ∀ k line, (instructionLines ls)[k]? = some line → ∃ mnemonic code,
    line.mnemonic = some mnemonic ∧
      isa.encode { address := UInt8.ofNat (start isa ls k), labels := labelTable isa ls } mnemonic
        (tokens line.operands) = .ok code
  /-- Each data line can be loaded. -/
  loads : ∀ line ∈ dataLines ls, Loads line.operands

/-- How a program lies in its memory. -/
structure Layout (isa : Isa) (ls : List Line) (p : Program) : Prop where
  /-- The bytes of an instruction line stand where the line starts. They are what the encoder makes
  of the line at this address, and as many as the mnemonic says. -/
  code : ∀ k line, (instructionLines ls)[k]? = some line → ∃ mnemonic code,
    line.mnemonic = some mnemonic ∧
      isa.encode { address := UInt8.ofNat (start isa ls k), labels := p.labels } mnemonic
        (tokens line.operands) = .ok code ∧
      line.size isa = code.bytes.length ∧
      (p.instructions.toList.drop (start isa ls k)).take code.bytes.length = code.bytes
  /-- The program is as long as all its instruction lines. -/
  length_eq : p.length = extent isa ls
  /-- It fits, and it is followed by zeros. -/
  length_le : p.length ≤ 256
  zero_behind : ∀ a : UInt8, p.length ≤ a.toNat → p.instructions.read a = 0
  /-- A label is the number of instruction bytes before its line, modulo 256. -/
  label : ∀ name a, p.labels.address? name = some a ↔
    ∃ before line after, ls = before ++ line :: after ∧ line.label = some name ∧
      a = UInt8.ofNat (extent isa before)

variable {isa : Isa} {source : String} {ls : List Line} {labels : LabelTable}

/-- Every line can be encoded behind the lines before it exactly if every instruction line and every
data line can. -/
theorem forall_encodes_iff (isa : Isa) (labels : LabelTable) (ls : List Line) :
    (∀ entry ∈ withBefore [] ls, entry.2.Encodes isa labels entry.1) ↔
      (∀ k line, (instructionLines ls)[k]? = some line → ∃ mnemonic code,
        line.mnemonic = some mnemonic ∧
          isa.encode { address := UInt8.ofNat (start isa ls k), labels } mnemonic
            (tokens line.operands) = .ok code) ∧
      ∀ line ∈ dataLines ls, Loads line.operands := by
  constructor
  · intro h
    refine ⟨?_, ?_⟩
    · intro k line hline
      obtain ⟨before, after, mnemonic, rfl, hinstruction, rfl⟩ :=
        getElem?_instructionLines_iff.mp hline
      have hencodes := h (before, line) (mem_withBefore.mpr ⟨before, after, rfl, rfl⟩)
      obtain ⟨code, hcode⟩ := hencodes.instruction mnemonic hinstruction
      rw [start_length_instructionLines]
      exact ⟨mnemonic, code, (Line.instruction?_eq_some_iff.mp hinstruction).2.2, hcode⟩
    · intro line hline
      obtain ⟨hmem, hdata⟩ := List.mem_filter.mp hline
      obtain ⟨before, after, rfl⟩ := List.append_of_mem hmem
      have hencodes := h (before, line) (mem_withBefore.mpr ⟨before, after, rfl, rfl⟩)
      exact hencodes.data hdata
  · rintro ⟨hcodes, hloads⟩ ⟨before, line⟩ hmem
    obtain ⟨_, after, rfl, rfl⟩ := mem_withBefore.mp hmem
    refine ⟨?_, ?_⟩
    · intro hdata
      exact hloads line (List.mem_filter.mpr ⟨by simp, hdata⟩)
    · intro mnemonic hinstruction
      obtain ⟨mnemonic', code, hmnemonic', hcode⟩ := hcodes _ line
        (getElem?_instructionLines_iff.mpr ⟨_, after, mnemonic, rfl, hinstruction, rfl⟩)
      have hmnemonic := (Line.instruction?_eq_some_iff.mp hinstruction).2.2
      obtain rfl := Option.some.inj (hmnemonic.symm.trans hmnemonic')
      rw [start_length_instructionLines] at hcode
      exact ⟨code, hcode⟩

/-- The program that the layout of a text makes. -/
def laidOut (isa : Isa) (ls : List Line) : Program where
  instructions := Bank.zero.writeBytes 0 (machineCode isa (labelTable isa ls) [] ls)
  data := (Image.fill isa (labelTable isa ls) {} ls).1.data
  length := extent isa ls
  labels := labelTable isa ls

/-- Assembling a text is laying it out, if nothing is wrong with it. -/
theorem assemble_eq_ok_iff {p : Program} :
    assemble isa source = .ok p ↔
      Assemblable isa (lines isa.commentMarks source.toList) ∧
        p = laidOut isa (lines isa.commentMarks source.toList) := by
  unfold assemble
  simp only
  generalize lines isa.commentMarks source.toList = ls
  by_cases hplace : Placeable isa ls
  · have hlines := forall_encodes_iff isa (labelTable isa ls) ls
    obtain ⟨haddress, hfill⟩ := fill_empty_spec (labelTable isa ls) hplace.known
    rw [collectLabels_of_placeable hplace]
    simp only [emit, List.isEmpty_iff]
    by_cases hencodes : ∀ entry ∈ withBefore [] ls,
        entry.2.Encodes isa (labelTable isa ls) entry.1
    · have hassemblable : Assemblable isa ls :=
        ⟨hplace, (hlines.mp hencodes).1, (hlines.mp hencodes).2⟩
      rw [if_pos (hfill.mpr hencodes), (fill_empty hencodes).1, haddress]
      simp [hassemblable, laidOut, eq_comm]
    · have hnot : ¬ Assemblable isa ls := fun h => hencodes (hlines.mpr ⟨h.encodes, h.loads⟩)
      rw [if_neg (fun hnil => hencodes (hfill.mp hnil))]
      simp [hnot]
  · obtain ⟨diagnostics, hdiagnostics⟩ := collectLabels_of_not_placeable hplace
    have hnot : ¬ Assemblable isa ls := fun h => hplace h.toPlaceable
    rw [hdiagnostics]
    simp [hnot]

theorem Assemblable.line_encodes (h : Assemblable isa ls) :
    ∀ entry ∈ withBefore [] ls, entry.2.Encodes isa (labelTable isa ls) entry.1 :=
  (forall_encodes_iff isa _ ls).mpr ⟨h.encodes, h.loads⟩

theorem Assemblable.length_machineCode {before after : List Line}
    (h : Assemblable isa (before ++ after)) :
    (machineCode isa (labelTable isa (before ++ after)) [] before).length = extent isa before := by
  have hencodes : ∀ entry ∈ withBefore [] before,
      entry.2.Encodes isa (labelTable isa (before ++ after)) entry.1 := by
    intro entry hmem
    apply h.line_encodes
    rw [withBefore_append]
    exact List.mem_append_left _ hmem
  exact (fill_empty hencodes).2

theorem Assemblable.toList_laidOut (h : Assemblable isa ls) :
    (laidOut isa ls).instructions.toList =
      machineCode isa (labelTable isa ls) [] ls ++ List.replicate (256 - extent isa ls) 0 := by
  have hlength := (fill_empty h.line_encodes).2
  rw [laidOut, Bank.toList_writeBytes_zero (by rw [hlength]; exact h.fits), hlength]

theorem Assemblable.layout (h : Assemblable isa ls) : Layout isa ls (laidOut isa ls) := by
  refine ⟨?_, rfl, h.fits, ?_, fun name a => address?_labelTable h.labels_nodup⟩
  · intro k line hline
    obtain ⟨mnemonic, code, hmnemonic, hcode⟩ := h.encodes k line hline
    refine ⟨mnemonic, code, hmnemonic, hcode, ?_, ?_⟩
    · obtain ⟨name, op, rfl, hname, _⟩ := Isa.decode_of_encode hcode
      rw [Line.size_eq hmnemonic (Isa.size?_of_mem hname), Code.length_bytes]
    · -- the bytes are the code of the lines before this one, its own, and the code of those after it
      rw [h.toList_laidOut]
      obtain ⟨before, after, mnemonic', rfl, hinstruction, rfl⟩ :=
        getElem?_instructionLines_iff.mp hline
      have hmnemonic' := (Line.instruction?_eq_some_iff.mp hinstruction).2.2
      obtain rfl := Option.some.inj (hmnemonic.symm.trans hmnemonic')
      rw [start_length_instructionLines] at hcode ⊢
      rw [machineCode_append, machineCode_cons, List.nil_append, Line.bytes_of_some hinstruction,
        hcode, bytesOf, List.append_assoc, List.append_assoc, ← h.length_machineCode,
        List.drop_left, List.take_left]
  · -- behind the code there are only zeros
    intro a ha
    have hread := (laidOut isa ls).instructions.read_eq_getElem a
    have hlength := (fill_empty h.line_encodes).2
    rw [h.toList_laidOut, List.getElem?_append_right (by rw [hlength]; exact ha),
      List.getElem?_replicate] at hread
    split at hread
    · exact Option.some.inj hread
    · cases hread

theorem layout_of_assemble {p : Program} (h : assemble isa source = .ok p) :
    Layout isa (lines isa.commentMarks source.toList) p := by
  obtain ⟨hassemblable, rfl⟩ := assemble_eq_ok_iff.mp h
  exact hassemblable.layout

/-- The code of an instruction line stands where the line starts, and the next one starts behind it. -/
theorem Layout.code_at {p : Program} {k : Nat} {line : Line} {mnemonic : Token} {code : Code}
    (h : Layout isa ls p) (hline : (instructionLines ls)[k]? = some line)
    (hmnemonic : line.mnemonic = some mnemonic)
    (hcode : isa.encode { address := UInt8.ofNat (start isa ls k), labels := p.labels } mnemonic
      (tokens line.operands) = .ok code) :
    start isa ls (k + 1) = start isa ls k + code.bytes.length ∧
      (p.instructions.toList.drop (start isa ls k)).take code.bytes.length = code.bytes := by
  obtain ⟨mnemonic', code', hmnemonic', hcode', hsize, hbytes⟩ := h.code k line hline
  obtain rfl := Option.some.inj (hmnemonic'.symm.trans hmnemonic)
  obtain rfl := Except.ok.inj (hcode'.symm.trans hcode)
  exact ⟨by rw [start_succ hline, hsize], hbytes⟩

/-- **Assembling.** A text is assembled exactly if every label is declared once and has a name, the
mnemonics before the first data line are known and their sizes leave them room, each of these lines
can be encoded at its address under all labels, and each data line can be loaded. The program then
has the layout of the text: the addresses at which lines are encoded are the ones at which they
stand. -/
theorem assemble_layout (isa : Isa) (source : String) :
    let ls := lines isa.commentMarks source.toList
    ((∃ p, assemble isa source = .ok p) ↔ Assemblable isa ls) ∧
      ∀ p, assemble isa source = .ok p → Layout isa ls p := by
  constructor
  · simp [assemble_eq_ok_iff]
  · intro p h
    exact layout_of_assemble h

/-- A text with labels before, between and behind the instructions, one of them after the data. -/
def countdown : String :=
  "start: LDX #3\nloop: DEX\n BEQ end\n JMP loop\nend: BRK\n DATA 01, 02\nrest: BRK"

theorem assemble_countdown : ∃ p, assemble .cdc6504 countdown = .ok p := ⟨_, by rfl⟩

/-- The branch of `countdown` is encoded at address 3, and that is where it stands. -/
theorem assemble_layout_countdown :
    ∃ p code, assemble .cdc6504 countdown = .ok p ∧ p.length = 8 ∧
      p.labels.address? "rest".toList = some 8 ∧
      Isa.cdc6504.encode { address := 3, labels := p.labels } "BEQ".toList ["end".toList] =
        .ok code ∧
      (p.instructions.toList.drop 3).take code.bytes.length = code.bytes := by
  obtain ⟨p, hp⟩ := assemble_countdown
  have hlayout := (assemble_layout .cdc6504 countdown).2 p hp
  obtain ⟨m, code, hm, hcode, -, hbytes⟩ := hlayout.code 2 _ rfl
  obtain rfl : "BEQ".toList = m := Option.some.inj hm
  refine ⟨p, code, hp, hlayout.length_eq, ?_, hcode, hbytes⟩
  exact (hlayout.label _ _).mpr
    ⟨(lines Isa.cdc6504.commentMarks countdown.toList).take 6, _, [], rfl, rfl, rfl⟩

end Octet.Assembly
