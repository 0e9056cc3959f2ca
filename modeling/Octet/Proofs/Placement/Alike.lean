import Octet.Proofs.Placement.Assemble

/-!
# Lines that come to the same

Two lists of lines are `Alike` if, line by line, both passes do the same with them: they declare the
same labels, hold instructions with the same mnemonics and operands, and data lines that are loaded
in the same way. Their numbers may differ, and so may whatever stands behind the first data line
besides labels and data.

The main statement is `Alike.assemble_eq_ok_iff`: texts with such lines are assembled to the same
program, or not at all.
-/

namespace Octet.Assembly

/-- Both passes do the same with one line as with the other, given the lines before it. -/
structure Line.Alike (before : List Line) (line line' : Line) : Prop where
  label : line'.label = line.label
  isData : line'.isData = line.isData
  instruction : line'.instruction? before = line.instruction? before
  operands : ∀ mnemonic, line.instruction? before = some mnemonic →
    tokens line'.operands = tokens line.operands
  data : line.isData = true → ∀ bank, loadData bank line'.operands = loadData bank line.operands

/-- Both passes do the same with these lines, one after another. -/
inductive Alike : List Line → List Line → Prop where
  | nil : Alike [] []
  | snoc {before before' line line'} (h : Alike before before') (hline : line.Alike before line') :
      Alike (before ++ [line]) (before' ++ [line'])

variable {isa : Isa} {labels : LabelTable} {ls ls' before before' : List Line} {line line' : Line}

/-! ## Data memory -/

theorem add_data (image : Image) :
    (image.add isa labels line).1.data =
      if line.isData then (loadData image.data line.operands).1 else image.data := by
  cases hmnemonic : line.mnemonic with
  | none => simp [Image.add, Line.isData, hmnemonic]
  | some mnemonic =>
    by_cases hdata : mnemonic = dataMnemonic
    · have hline : line.isData = true := by simp [Line.isData, hmnemonic, hdata]
      rw [add_of_isData image labels hline, if_pos hline, Image.addData]
      rcases loadData image.data line.operands with ⟨data, result⟩
      cases result <;> rfl
    · have hline : line.isData = false := by simpa [Line.isData, hmnemonic] using hdata
      rw [hline, if_neg Bool.false_ne_true]
      simp only [Image.add, hmnemonic, if_neg hdata]
      split
      · rfl
      · unfold Image.addInstruction
        split
        · rfl
        · simp only
          split <;> rfl

/-- The data memory that lines leave is the one that their data lines leave. -/
theorem fill_data (image : Image) :
    (image.fill isa labels ls).1.data =
      (dataLines ls).foldl (fun bank line => (loadData bank line.operands).1) image.data := by
  induction ls generalizing image with
  | nil => rfl
  | cons line rest ih =>
    rw [fill_cons.1, ih, add_data]
    unfold dataLines
    cases hdata : line.isData <;> simp [hdata]

/-! ## One line -/

theorem Line.instruction?_congr (h : hasData before' = hasData before) :
    line.instruction? before' = line.instruction? before := by
  unfold instruction?
  rw [h]

theorem Line.encodes_congr (hdata : hasData before' = hasData before)
    (hextent : extent isa before' = extent isa before) :
    line.Encodes isa labels before' ↔ line.Encodes isa labels before := by
  constructor
  · rintro ⟨hloads, hcode⟩
    rw [Line.instruction?_congr hdata, hextent] at hcode
    exact ⟨hloads, hcode⟩
  · rintro ⟨hloads, hcode⟩
    rw [← Line.instruction?_congr hdata, ← hextent] at hcode
    exact ⟨hloads, hcode⟩

theorem Line.bytes_congr (hdata : hasData before' = hasData before)
    (hextent : extent isa before' = extent isa before) :
    line.bytes isa labels before' = line.bytes isa labels before := by
  unfold bytes
  rw [Line.instruction?_congr hdata, hextent]

theorem Line.Alike.refl (before : List Line) (line : Line) : line.Alike before line :=
  ⟨rfl, rfl, rfl, fun _ _ => rfl, fun _ _ => rfl⟩

theorem Line.Alike.size_eq (h : line.Alike before line') {mnemonic : Token}
    (hinstruction : line.instruction? before = some mnemonic) : line'.size isa = line.size isa := by
  have hmnemonic := (Line.instruction?_eq_some_iff.mp hinstruction).2.2
  have hmnemonic' := (Line.instruction?_eq_some_iff.mp (h.instruction.trans hinstruction)).2.2
  simp only [Line.size, hmnemonic, hmnemonic']

theorem Line.Alike.encodes_iff (h : line.Alike before line') :
    line'.Encodes isa labels before ↔ line.Encodes isa labels before := by
  cases hinstruction : line.instruction? before with
  | some mnemonic =>
    rw [Line.encodes_iff_of_some hinstruction,
      Line.encodes_iff_of_some (h.instruction.trans hinstruction), h.operands mnemonic hinstruction]
  | none =>
    rw [Line.encodes_iff_of_none hinstruction,
      Line.encodes_iff_of_none (h.instruction.trans hinstruction), h.isData]
    refine imp_congr_right fun hdata => ?_
    rw [loads_iff .zero, loads_iff .zero, h.data hdata .zero]

theorem Line.Alike.bytes_eq (h : line.Alike before line') :
    line'.bytes isa labels before = line.bytes isa labels before := by
  cases hinstruction : line.instruction? before with
  | some mnemonic =>
    rw [Line.bytes_of_some hinstruction, Line.bytes_of_some (h.instruction.trans hinstruction),
      h.operands mnemonic hinstruction]
  | none =>
    rw [Line.bytes_of_none hinstruction, Line.bytes_of_none (h.instruction.trans hinstruction)]

/-! ## All lines -/

theorem forall_withBefore_snoc {P : List Line × Line → Prop} :
    (∀ entry ∈ withBefore [] (before ++ [line]), P entry) ↔
      (∀ entry ∈ withBefore [] before, P entry) ∧ P (before, line) := by
  rw [withBefore_append, List.forall_mem_append]
  simp [withBefore]

/-- A text can be assembled if its labels can be placed and each line can be encoded where it is. -/
theorem assemblable_iff :
    Assemblable isa ls ↔ Placeable isa ls ∧
      ∀ entry ∈ withBefore [] ls, entry.2.Encodes isa (labelTable isa ls) entry.1 := by
  constructor
  · intro h
    exact ⟨h.toPlaceable, h.line_encodes⟩
  · rintro ⟨hplace, hencodes⟩
    obtain ⟨hcodes, hloads⟩ := (forall_encodes_iff isa _ ls).mp hencodes
    exact ⟨hplace, hcodes, hloads⟩

namespace Alike

theorem refl (ls : List Line) : Alike ls ls := by
  induction ls using List.reverseRecOn with
  | nil => exact .nil
  | append_singleton before line ih => exact .snoc ih (.refl before line)

theorem append (h : Alike ls ls') (after : List Line) : Alike (ls ++ after) (ls' ++ after) := by
  induction after using List.reverseRecOn with
  | nil => simpa using h
  | append_singleton front last ih =>
    rw [← List.append_assoc, ← List.append_assoc]
    exact .snoc ih (.refl _ last)

theorem hasData_eq (h : Alike ls ls') : hasData ls' = hasData ls := by
  induction h with
  | nil => rfl
  | snoc _ hline ih =>
    rw [hasData_append, hasData_append, ih, hasData_singleton, hasData_singleton, hline.isData]

theorem labelNames_eq (h : Alike ls ls') : labelNames ls' = labelNames ls := by
  induction h with
  | nil => rfl
  | snoc _ hline ih =>
    rw [labelNames_append, labelNames_append, ih]
    simp only [labelNames, List.filterMap_cons, hline.label]

/-- What the second line is behind the second lines. -/
theorem instruction?_eq (h : Alike before before') (hline : line.Alike before line') :
    line'.instruction? before' = line.instruction? before :=
  (Line.instruction?_congr h.hasData_eq).trans hline.instruction

theorem extent_eq (h : Alike ls ls') : extent isa ls' = extent isa ls := by
  induction h with
  | nil => rfl
  | @snoc before before' line line' h hline ih =>
    have hinstruction' := h.instruction?_eq hline
    cases hinstruction : line.instruction? before with
    | none =>
      rw [extent_snoc_of_none hinstruction, extent_snoc_of_none (hinstruction'.trans hinstruction),
        ih]
    | some mnemonic =>
      rw [extent_snoc_of_some hinstruction, extent_snoc_of_some (hinstruction'.trans hinstruction),
        ih, hline.size_eq hinstruction]

theorem labelTable_eq (h : Alike ls ls') : labelTable isa ls' = labelTable isa ls := by
  induction h with
  | nil => rfl
  | snoc h hline ih =>
    rw [labelTable_snoc, labelTable_snoc, ih, Line.declaration?, Line.declaration?, hline.label,
      h.extent_eq]

theorem follows_iff (h : Alike before before') (hline : line.Alike before line') :
    line'.Follows isa before' ↔ line.Follows isa before := by
  constructor
  · rintro ⟨hlabel, hinstruction⟩
    rw [hline.label, h.labelNames_eq] at hlabel
    rw [h.instruction?_eq hline, h.extent_eq] at hinstruction
    exact ⟨hlabel, hinstruction⟩
  · rintro ⟨hlabel, hinstruction⟩
    rw [← hline.label, ← h.labelNames_eq] at hlabel
    rw [← h.instruction?_eq hline, ← h.extent_eq] at hinstruction
    exact ⟨hlabel, hinstruction⟩

theorem placeable_iff (h : Alike ls ls') : Placeable isa ls' ↔ Placeable isa ls := by
  induction h with
  | nil => exact Iff.rfl
  | snoc h hline ih =>
    constructor
    · intro hplace
      exact (ih.mp hplace.of_append).snoc ((h.follows_iff hline).mp hplace.follows)
    · intro hplace
      exact (ih.mpr hplace.of_append).snoc ((h.follows_iff hline).mpr hplace.follows)

theorem encodes_iff (h : Alike ls ls') (labels : LabelTable) :
    (∀ entry ∈ withBefore [] ls', entry.2.Encodes isa labels entry.1) ↔
      ∀ entry ∈ withBefore [] ls, entry.2.Encodes isa labels entry.1 := by
  induction h with
  | nil => exact Iff.rfl
  | @snoc before before' line line' h hline ih =>
    have hlast : line'.Encodes isa labels before' ↔ line.Encodes isa labels before := by
      rw [← hline.encodes_iff]
      exact Line.encodes_congr h.hasData_eq h.extent_eq
    rw [forall_withBefore_snoc, forall_withBefore_snoc, ih, hlast]

theorem machineCode_eq (h : Alike ls ls') (labels : LabelTable) :
    machineCode isa labels [] ls' = machineCode isa labels [] ls := by
  induction h with
  | nil => rfl
  | @snoc before before' line line' h hline ih =>
    have hlast : line'.bytes isa labels before' = line.bytes isa labels before :=
      (Line.bytes_congr h.hasData_eq h.extent_eq).trans hline.bytes_eq
    rw [machineCode_append, machineCode_append, ih, machineCode_cons, machineCode_cons,
      List.nil_append, List.nil_append, hlast]
    rfl

theorem data_eq (h : Alike ls ls') (labels : LabelTable) :
    (Image.fill isa labels {} ls').1.data = (Image.fill isa labels {} ls).1.data := by
  rw [fill_data, fill_data]
  induction h with
  | nil => rfl
  | @snoc before before' line line' _ hline ih =>
    unfold dataLines at ih ⊢
    rw [List.filter_append, List.filter_append, List.foldl_append, List.foldl_append, ih]
    cases hdata : line.isData with
    | false =>
      have hdata' : line'.isData = false := hline.isData.trans hdata
      simp [hdata, hdata']
    | true =>
      have hdata' : line'.isData = true := hline.isData.trans hdata
      simp [hdata, hdata', hline.data hdata]

theorem assemblable_iff (h : Alike ls ls') : Assemblable isa ls' ↔ Assemblable isa ls := by
  rw [Assembly.assemblable_iff, Assembly.assemblable_iff, h.placeable_iff, h.labelTable_eq,
    h.encodes_iff]

theorem laidOut_eq (h : Alike ls ls') : laidOut isa ls' = laidOut isa ls := by
  unfold laidOut
  rw [h.labelTable_eq, h.machineCode_eq, h.data_eq, h.extent_eq]

/-- **Texts whose lines are alike come to the same program.** -/
theorem assemble_eq_ok_iff {source source' : String} {p : Program}
    (h : Alike (lines isa.commentMarks source.toList) (lines isa.commentMarks source'.toList)) :
    assemble isa source' = .ok p ↔ assemble isa source = .ok p := by
  rw [Assembly.assemble_eq_ok_iff, Assembly.assemble_eq_ok_iff, h.assemblable_iff, h.laidOut_eq]

end Alike

end Octet.Assembly
