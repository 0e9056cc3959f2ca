import Octet.Proofs.Placement.Image

/-!
# What is wrong with the lines of a text

The second pass looks at each line by itself: what is wrong with a line depends on the lines before it
by their sizes only, whether or not anything is wrong with them. `Line.flaw?` says what it is, and what
the pass reports are the flaws of all lines in their order.

* `fill_diagnostics` — the second pass reports the flaws of the lines.
* `assemble_eq_error_iff` — so does the assembler, once the labels are known.
* `pairwise_number_lines`, `mem_flaws_iff` — line numbers increase, so a number and a cause in the
  report tell which line has which flaw.
* `blames_iff` — together: a text is refused for a line and a cause exactly if this is its flaw.
-/

namespace Octet.Assembly

variable {isa : Isa} {labels : LabelTable} {image : Image} {before after ls : List Line}
  {line : Line} {cause : Cause}

/-! ## One line -/

/-- What a reading fails with, if it does. -/
def failure? {α : Type} : Except Cause α → Option Cause
  | .ok _ => none
  | .error cause => some cause

/-- What is wrong with a line, under the labels of the whole text and given the lines before it. -/
def Line.flaw? (isa : Isa) (labels : LabelTable) (before : List Line) (line : Line) : Option Cause :=
  match line.instruction? before with
  | some mnemonic =>
    failure? (isa.encode { address := UInt8.ofNat (extent isa before), labels } mnemonic
      (tokens line.operands))
  | none => if line.isData then failure? (loadData .zero line.operands).2 else none

theorem Line.flaw?_of_some {mnemonic : Token} (h : line.instruction? before = some mnemonic) :
    line.flaw? isa labels before = failure? (isa.encode
      { address := UInt8.ofNat (extent isa before), labels } mnemonic (tokens line.operands)) := by
  rw [flaw?, h]

theorem Line.flaw?_of_none (h : line.instruction? before = none) :
    line.flaw? isa labels before =
      if line.isData then failure? (loadData .zero line.operands).2 else none := by
  rw [flaw?, h]

theorem addInstruction_snd (image : Image) (labels : LabelTable) {mnemonic : Token} {size : UInt8}
    (hsize : isa.size? mnemonic = some size) (operands : List Char) :
    (image.addInstruction isa labels mnemonic operands).2 = failure? (isa.encode
      { address := UInt8.ofNat image.address, labels } mnemonic (tokens operands)) := by
  simp only [Image.addInstruction, hsize]
  cases isa.encode { address := UInt8.ofNat image.address, labels } mnemonic (tokens operands) <;>
    rfl

theorem addData_snd (image : Image) (operands : List Char) :
    (image.addData operands).2 = failure? (loadData .zero operands).2 := by
  rw [loadData_snd .zero image.data operands]
  unfold Image.addData
  rcases loadData image.data operands with ⟨data, result⟩
  cases result <;> rfl

/-- The second pass reports the flaw of a line. -/
theorem add_snd (labels : LabelTable) (hbehind : image.Behind isa before)
    (hknown : ∀ mnemonic, line.instruction? before = some mnemonic →
      ∃ size, isa.size? mnemonic = some size) :
    (image.add isa labels line).2 = line.flaw? isa labels before := by
  cases hinstruction : line.instruction? before with
  | some mnemonic =>
    obtain ⟨size, hsize⟩ := hknown mnemonic hinstruction
    rw [add_of_some labels hbehind hinstruction, addInstruction_snd image labels hsize,
      Line.flaw?_of_some hinstruction, hbehind.address_eq]
  | none =>
    rw [Line.flaw?_of_none hinstruction]
    cases hdata : line.isData with
    | true => rw [add_of_isData image labels hdata, addData_snd, if_pos rfl]
    | false => rw [add_of_none labels hbehind hinstruction hdata, if_neg Bool.false_ne_true]

/-! ## All lines -/

/-- What is wrong with lines, given the lines before them. -/
def flaws (isa : Isa) (labels : LabelTable) (before ls : List Line) : List Diagnostic :=
  (withBefore before ls).filterMap fun entry =>
    (entry.2.flaw? isa labels entry.1).map (Diagnostic.mk entry.2.number)

theorem flaws_cons :
    flaws isa labels before (line :: ls) =
      ((line.flaw? isa labels before).map (Diagnostic.mk line.number)).toList ++
        flaws isa labels (before ++ [line]) ls := by
  unfold flaws
  rw [withBefore, List.filterMap_cons]
  cases line.flaw? isa labels before <;> rfl

/-- The second pass reports the flaws of the lines in their order. -/
theorem fill_diagnostics (labels : LabelTable) (hbehind : image.Behind isa before)
    (hknown : ∀ line ∈ instructionLines (before ++ ls), ∃ mnemonic size,
      line.mnemonic = some mnemonic ∧ isa.size? mnemonic = some size) :
    (image.fill isa labels ls).2 = flaws isa labels before ls := by
  induction ls generalizing before image with
  | nil => rfl
  | cons line rest ih =>
    rw [List.append_cons] at hknown
    have hline := exists_size_of_known hknown
    have hrest := ih (add_spec labels hbehind hline).1 hknown
    rw [flaws_cons, ← add_snd labels hbehind hline, ← hrest, Image.fill]
    rcases image.add isa labels line with ⟨next, outcome⟩
    cases outcome <;> rfl

/-- A text whose labels are known is refused for the flaws of its lines, if there are any. -/
theorem assemble_eq_error_iff {source : String} {ds : List Diagnostic}
    (h : Placeable isa (lines isa.commentMarks source.toList)) :
    assemble isa source = .error ds ↔
      ds ≠ [] ∧ ds = flaws isa (labelTable isa (lines isa.commentMarks source.toList)) []
        (lines isa.commentMarks source.toList) := by
  unfold assemble
  simp only
  generalize lines isa.commentMarks source.toList = ls at h ⊢
  have hempty : ({} : Image).Behind isa [] := ⟨rfl, rfl⟩
  have hfill := fill_diagnostics (labelTable isa ls) hempty h.known
  rw [collectLabels_of_placeable h]
  simp only [emit, hfill]
  generalize flaws isa (labelTable isa ls) [] ls = found
  cases found with
  | nil => simp
  | cons first rest =>
    constructor
    · intro heq
      obtain rfl := Except.error.inj heq
      exact ⟨nofun, rfl⟩
    · rintro ⟨_, rfl⟩
      rfl

/-! ## Line numbers -/

theorem number_of_read? {marks : List Char} {number : Nat} {raw : List Char}
    (h : Line.read? marks number raw = some line) : line.number = number := by
  unfold Line.read? at h
  simp only at h
  split at h
  · cases h
  · obtain rfl := Option.some.inj h
    rfl

theorem le_number_of_mem {marks : List Char} {number : Nat} {raws : List (List Char)}
    (h : line ∈ linesFrom marks number raws) : number ≤ line.number := by
  induction raws generalizing number with
  | nil => cases h
  | cons raw rest ih =>
    unfold linesFrom at h
    split at h
    · next first hread =>
      rcases List.mem_cons.mp h with rfl | h
      · exact Nat.le_of_eq (number_of_read? hread).symm
      · exact Nat.le_of_succ_le (ih h)
    · exact Nat.le_of_succ_le (ih h)

/-- The numbers of the lines of a text increase. -/
theorem pairwise_number_lines (marks source : List Char) :
    (lines marks source).Pairwise fun line line' => line.number < line'.number := by
  unfold lines
  generalize 1 = number
  induction splitLines source generalizing number with
  | nil => exact .nil
  | cons raw rest ih =>
    unfold linesFrom
    split
    · next first hread =>
      refine .cons ?_ (ih (number + 1))
      intro line hline
      rw [number_of_read? hread]
      exact le_number_of_mem hline
    · exact ih (number + 1)

/-- A number and a cause are reported exactly if the line with this number has the cause for a flaw. -/
theorem mem_flaws_iff
    (hnumbers : (before ++ line :: after).Pairwise fun line line' => line.number < line'.number) :
    ⟨line.number, cause⟩ ∈ flaws isa labels [] (before ++ line :: after) ↔
      line.flaw? isa labels before = some cause := by
  unfold flaws
  rw [List.mem_filterMap]
  constructor
  · rintro ⟨⟨before', line'⟩, hmem, hflaw⟩
    obtain ⟨_, after', hsplit, rfl⟩ := mem_withBefore.mp hmem
    obtain ⟨cause', hflaw', hdiagnostic⟩ := Option.map_eq_some_iff.mp hflaw
    obtain ⟨hsame, rfl⟩ := Diagnostic.mk.inj hdiagnostic
    have hnumber : line'.number = line.number := hsame
    -- the lines in front have smaller numbers and those behind have larger ones
    obtain ⟨_, hbehind, hfront⟩ := List.pairwise_append.mp hnumbers
    have hnotFront : line' ∉ before := by
      intro hin
      have hlt := hfront line' hin line List.mem_cons_self
      omega
    have hnotBehind : line' ∉ after := by
      intro hin
      have hlt := (List.pairwise_cons.mp hbehind).1 line' hin
      omega
    obtain ⟨rfl, rfl, _⟩ := (List.append_cons_inj_of_notMem hnotFront hnotBehind).mp hsplit
    exact hflaw'
  · intro hflaw
    refine ⟨(before, line), mem_withBefore.mpr ⟨before, after, rfl, rfl⟩, ?_⟩
    rw [hflaw]
    rfl

/-! ## Refusing a text -/

/-- The assembler refuses a text, and says that there is this cause on this line. -/
def Blames (isa : Isa) (source : String) (line : Line) (cause : Cause) : Prop :=
  ∃ ds, assemble isa source = .error ds ∧ ⟨line.number, cause⟩ ∈ ds

theorem blames_iff {source : String} (h : Placeable isa (lines isa.commentMarks source.toList))
    (hline : lines isa.commentMarks source.toList = before ++ line :: after) :
    Blames isa source line cause ↔
      line.flaw? isa (labelTable isa (before ++ line :: after)) before = some cause := by
  have hnumbers := pairwise_number_lines isa.commentMarks source.toList
  rw [hline] at hnumbers
  rw [← mem_flaws_iff hnumbers]
  unfold Blames
  simp only [assemble_eq_error_iff h]
  rw [hline]
  constructor
  · rintro ⟨_, ⟨_, rfl⟩, hmem⟩
    exact hmem
  · intro hmem
    exact ⟨_, ⟨List.ne_nil_of_mem hmem, rfl⟩, hmem⟩

end Octet.Assembly
