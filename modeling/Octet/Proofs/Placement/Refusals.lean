import Octet.Proofs.Placement.Diagnostics
import Octet.Proofs.Reading.Parts

/-!
# What a refused text is refused for

Each pass reports at most one thing for a line, in the order of the lines, and what it reports is of
its own kind: the first pass speaks of labels, mnemonics and the size of the program
(`Cause.isAboutPlacement`), the second one of operands, data and branches. A text that fails in the
first pass does not come to the second.

* `survey_lines`, `survey_causes`, `survey_final` — the report of the first pass.
* `flaws_lines`, `mem_flaws_iff_fails`, `Line.Fails.not_isAboutPlacement` — the report of the second.

The main statement is `report_of_refused`.
-/

namespace Octet.Assembly

open Text (Blanks)

variable {isa : Isa} {labels : LabelTable} {before after ls : List Line} {line : Line}
  {cause : Cause} {marks raw : List Char} {number : Nat} {raws : List (List Char)}

/-! ## Kinds of causes -/

/-- Whether a cause is about a label that is declared, a mnemonic, or the size of the program. All
others are about operands, data and branches. -/
def Cause.isAboutPlacement : Cause → Bool
  | emptyLabel => true
  | duplicateLabel _ => true
  | unknownInstruction _ => true
  | programTooLarge _ => true
  | undefinedLabel _ => false
  | invalidOperand _ => false
  | textTooLong _ => false
  | listTooLong => false
  | branchTooFar _ => false

theorem declare_error {p : Position} {label : Option Token} (h : p.declare label = .error cause) :
    cause.isAboutPlacement = true := by
  unfold Position.declare at h
  split at h
  · cases h
  · split at h
    · cases h
      rfl
    · split at h
      · cases h
        rfl
      · cases h

theorem advance_error {p : Position} {mnemonic : Token}
    (h : p.advance isa mnemonic = .error cause) : cause.isAboutPlacement = true := by
  unfold Position.advance at h
  split at h
  · cases h
  · split at h
    · cases h
    · split at h
      · cases h
        rfl
      · simp only at h
        split at h
        · cases h
          rfl
        · cases h

theorem visit_error {p : Position} (h : (p.visit isa line).2 = some cause) :
    cause.isAboutPlacement = true := by
  unfold Position.visit at h
  split at h
  · next hdeclare =>
    obtain rfl := Option.some.inj h
    exact declare_error hdeclare
  · split at h
    · cases h
    · split at h
      · cases h
      · next hadvance =>
        obtain rfl := Option.some.inj h
        exact advance_error hadvance

theorem Cause.not_isAboutPlacement_of_isAboutOperands (h : cause.isAboutOperands = true) :
    cause.isAboutPlacement = false := by
  cases cause <;> first | rfl | cases h

theorem loadList_error {bank : Bank} {address : Nat} {values : List Token}
    (h : (loadList bank address values).2 = .error cause) : cause.isAboutPlacement = false := by
  induction values generalizing bank address with
  | nil => cases h
  | cons token rest ih =>
    unfold loadList at h
    split at h
    · split at h
      · exact ih h
      · cases h
        rfl
    · cases h
      rfl

theorem textBytes_error {quoted : List Char} (h : textBytes quoted = .error cause) :
    cause.isAboutPlacement = false := by
  unfold textBytes at h
  split at h
  · cases h
    rfl
  · simp only at h
    split at h
    · split at h
      · split at h
        · cases h
        · cases h
          rfl
      · cases h
        rfl
    · cases h
      rfl

theorem loadData_error {bank : Bank} {operands : List Char}
    (h : (loadData bank operands).2 = .error cause) : cause.isAboutPlacement = false := by
  unfold loadData at h
  split at h
  · cases h
  · split at h
    · unfold loadText at h
      split at h
      · cases h
      · next htext =>
        cases h
        exact textBytes_error htext
    · exact loadList_error h

/-! ## The report of the first pass -/

/-- What a pass over lines reports: at most one thing for a line, in the order of the lines. -/
def ReportsLines (ds : List Diagnostic) (ls : List Line) : Prop :=
  (ds.map Diagnostic.line).Sublist (ls.map Line.number)

theorem survey_lines (p : Position) (ls : List Line) : ReportsLines (survey isa p ls).2 ls := by
  unfold ReportsLines
  induction ls generalizing p with
  | nil => exact .slnil
  | cons line rest ih =>
    unfold survey
    split
    · exact .cons _ (ih _)
    · split
      · exact .cons_cons _ (List.nil_sublist _)
      · exact .cons_cons _ (ih _)

theorem survey_causes (p : Position) (ls : List Line) :
    ∀ d ∈ (survey isa p ls).2, d.cause.isAboutPlacement = true := by
  induction ls generalizing p with
  | nil => exact fun _ hd => nomatch hd
  | cons line rest ih =>
    unfold survey
    split
    · exact ih _
    · next next cause hvisit =>
      have hcause : cause.isAboutPlacement = true := visit_error (congrArg Prod.snd hvisit)
      split
      · exact List.forall_mem_singleton.mpr hcause
      · exact List.forall_mem_cons.mpr ⟨hcause, ih _⟩

/-- The survey ends with the instruction that does not fit. -/
theorem survey_final (p : Position) (ls : List Line) :
    ∀ d ∈ (survey isa p ls).2.dropLast, d.cause.isFinal = false := by
  induction ls generalizing p with
  | nil => exact fun _ hd => nomatch hd
  | cons line rest ih =>
    unfold survey
    split
    · exact ih _
    · next next cause hvisit =>
      split
      · exact fun _ hd => nomatch hd
      · next hfinal =>
        have hlater := ih next
        revert hlater
        rcases survey isa next rest with ⟨_, _ | ⟨first, others⟩⟩
        · exact fun _ _ hd => nomatch hd
        · exact fun hlater => List.forall_mem_cons.mpr ⟨by simpa using hfinal, hlater⟩

/-! ## The report of the second pass -/

/-- Something is wrong with a line in the second pass: it is an instruction that cannot be encoded at
its address, or holds data that cannot be loaded into any memory. -/
def Line.Fails (isa : Isa) (labels : LabelTable) (before : List Line) (line : Line) (cause : Cause) :
    Prop :=
  (∃ mnemonic, line.instruction? before = some mnemonic ∧
    isa.encode { address := UInt8.ofNat (extent isa before), labels } mnemonic
      (tokens line.operands) = .error cause) ∨
  line.isData = true ∧ ∀ bank, (loadData bank line.operands).2 = .error cause

theorem failure?_eq_some {α : Type} {x : Except Cause α} :
    failure? x = some cause ↔ x = .error cause := by
  cases x <;> simp [failure?]

theorem Line.fails_iff :
    line.Fails isa labels before cause ↔ line.flaw? isa labels before = some cause := by
  unfold Fails
  cases hinstruction : line.instruction? before with
  | some mnemonic =>
    have hdata : line.isData = false := (Line.instruction?_eq_some_iff.mp hinstruction).2.1
    rw [Line.flaw?_of_some hinstruction, failure?_eq_some]
    simp [hdata]
  | none =>
    rw [Line.flaw?_of_none hinstruction]
    cases hdata : line.isData with
    | false => simp
    | true =>
      rw [if_pos rfl, failure?_eq_some]
      constructor
      · rintro (⟨_, hsome, _⟩ | ⟨_, hload⟩)
        · cases hsome
        · exact hload .zero
      · intro hload
        exact .inr ⟨rfl, fun bank => (loadData_snd bank .zero line.operands).trans hload⟩

/-- The second pass says nothing about the mnemonic of an instruction, since it is known by then. -/
theorem Line.Fails.not_isAboutPlacement (h : line.Fails isa labels before cause)
    (hknown : ∀ mnemonic, line.instruction? before = some mnemonic →
      ∃ size, isa.size? mnemonic = some size ∧ Text.upper mnemonic = mnemonic) :
    cause.isAboutPlacement = false := by
  rcases h with ⟨mnemonic, hinstruction, hencode⟩ | ⟨_, hload⟩
  · obtain ⟨size, hsize, hupper⟩ := hknown mnemonic hinstruction
    obtain ⟨name, rfl, hname⟩ := Isa.mem_of_size? hsize hupper
    exact Cause.not_isAboutPlacement_of_isAboutOperands (Isa.blamesOperands_encode hname cause hencode)
  · exact loadData_error (hload .zero)

theorem flaws_lines : ReportsLines (flaws isa labels before ls) ls := by
  unfold ReportsLines
  induction ls generalizing before with
  | nil => exact .slnil
  | cons line rest ih =>
    rw [flaws_cons]
    cases line.flaw? isa labels before with
    | none => exact .cons _ ih
    | some cause => exact .cons_cons _ ih

theorem mem_flaws_iff_fails
    (hnumbers : ls.Pairwise fun line line' => line.number < line'.number) {d : Diagnostic} :
    d ∈ flaws isa labels [] ls ↔
      ∃ before line after, ls = before ++ line :: after ∧ d.line = line.number ∧
        line.Fails isa labels before d.cause := by
  constructor
  · intro hd
    obtain ⟨⟨before, line⟩, hmem, hflaw⟩ := List.mem_filterMap.mp hd
    obtain ⟨_, after, hsplit, rfl⟩ := mem_withBefore.mp hmem
    obtain ⟨cause, hcause, rfl⟩ := Option.map_eq_some_iff.mp hflaw
    exact ⟨_, line, after, hsplit, rfl, Line.fails_iff.mpr hcause⟩
  · rintro ⟨before, line, after, rfl, hline, hfails⟩
    obtain ⟨number, cause⟩ := d
    obtain rfl : number = line.number := hline
    exact (mem_flaws_iff hnumbers).mpr (Line.fails_iff.mp hfails)

/-! ## Whole texts -/

/-- The number of a line is its place in the text, where it is not blank. -/
theorem ReportsLines.exists_raw {ds : List Diagnostic} {source : List Char}
    (h : ReportsLines ds (lines marks source)) {d : Diagnostic} (hd : d ∈ ds) :
    ∃ k raw, d.line = k + 1 ∧ (splitLines source)[k]? = some raw ∧ ¬ Blanks raw := by
  obtain ⟨line, hline, hnumber⟩ := List.mem_map.mp (h.subset (List.mem_map_of_mem hd))
  obtain ⟨k, raw, hraw, hread⟩ := mem_linesFrom_iff.mp hline
  refine ⟨k, raw, ?_, hraw, not_blanks_of_read? hread⟩
  rw [← hnumber, number_of_read? hread, Nat.add_comm]

theorem ReportsLines.pairwise {ds : List Diagnostic} {source : List Char}
    (h : ReportsLines ds (lines marks source)) :
    ds.Pairwise fun d d' => d.line < d'.line :=
  List.pairwise_map.mp (.sublist h (List.pairwise_map.mpr (pairwise_number_lines marks source)))

/-- The instructions of a text have names by the time that the second pass comes to them. -/
theorem Placeable.instruction_known {source : List Char} (h : Placeable isa (lines marks source))
    (hsplit : lines marks source = before ++ line :: after) {mnemonic : Token}
    (hinstruction : line.instruction? before = some mnemonic) :
    ∃ size, isa.size? mnemonic = some size ∧ Text.upper mnemonic = mnemonic := by
  have hline : line ∈ lines marks source := by simp [hsplit]
  obtain ⟨_, raw, _, hread⟩ := mem_linesFrom_iff.mp hline
  have hmnemonic := (Line.instruction?_eq_some_iff.mp hinstruction).2.2
  have hknown := h.known
  rw [hsplit, List.append_cons] at hknown
  obtain ⟨size, hsize⟩ := exists_size_of_known hknown mnemonic hinstruction
  exact ⟨size, hsize, upper_mnemonic_of_read? hread hmnemonic⟩

/-- **The report on a text that is refused.** It is not empty, the numbers of its lines increase, and
they are numbers of lines that are not blank. Either all of it comes from placing the labels, and is
about labels, mnemonics and the size of the program, where an instruction that does not fit comes last.
Or the labels have been placed, and it is about operands, data and branches: then it tells of exactly
the instructions that cannot be encoded at their addresses and the data that cannot be loaded, with
what is wrong with each of them, whatever is wrong with the others. -/
theorem report_of_refused {source : String} {ds : List Diagnostic}
    (h : assemble isa source = .error ds) :
    let ls := lines isa.commentMarks source.toList
    ds ≠ [] ∧ ds.Pairwise (fun d d' => d.line < d'.line) ∧
      (∀ d ∈ ds, ∃ k raw, d.line = k + 1 ∧ (splitLines source.toList)[k]? = some raw ∧
        ¬ Blanks raw) ∧
      ((collectLabels isa ls = .error ds ∧
          (∀ d ∈ ds, d.cause.isAboutPlacement = true) ∧
          ∀ d ∈ ds.dropLast, d.cause.isFinal = false) ∨
        ∃ labels, collectLabels isa ls = .ok labels ∧
          (∀ d ∈ ds, d.cause.isAboutPlacement = false) ∧
          ∀ d, d ∈ ds ↔ ∃ before line after, ls = before ++ line :: after ∧
            d.line = line.number ∧ line.Fails isa labels before d.cause) := by
  intro ls
  cases hlabels : collectLabels isa ls with
  | error found =>
    obtain rfl : found = ds := by simpa [assemble, ls, hlabels] using h
    unfold collectLabels at hlabels
    simp only at hlabels
    split at hlabels
    · cases hlabels
    · next hne =>
      obtain rfl := Except.error.inj hlabels
      have hreport : ReportsLines (survey isa {} ls).2 ls := survey_lines {} ls
      exact ⟨by simpa using hne, hreport.pairwise, fun d hd => hreport.exists_raw hd,
        .inl ⟨rfl, survey_causes {} ls, survey_final {} ls⟩⟩
  | ok labels =>
    have hplace : Placeable isa ls := placeable_of_collectLabels hlabels
    obtain rfl : labelTable isa ls = labels :=
      Except.ok.inj ((collectLabels_of_placeable hplace).symm.trans hlabels)
    obtain ⟨hne, rfl⟩ := (assemble_eq_error_iff hplace).mp h
    have hreport : ReportsLines (flaws isa (labelTable isa ls) [] ls) ls := flaws_lines
    have hfails : ∀ d, d ∈ flaws isa (labelTable isa ls) [] ls ↔ _ := fun d =>
      mem_flaws_iff_fails (pairwise_number_lines isa.commentMarks source.toList)
    refine ⟨hne, hreport.pairwise, fun d hd => hreport.exists_raw hd,
      .inr ⟨_, rfl, fun d hd => ?_, hfails⟩⟩
    obtain ⟨before, line, after, hsplit, _, hfailure⟩ := (hfails d).mp hd
    exact hfailure.not_isAboutPlacement fun _ hinstruction =>
      hplace.instruction_known hsplit hinstruction

/-- Three lines with something wrong, and a blank one. -/
def misread : String :=
  "LDA #300\n\nJMP nowhere\nDATA 'a"

/-- One line of each kind: a value, a target and a text. -/
theorem report_of_refused_misread :
    ∃ ds, assemble .cdc6504 misread = .error ds ∧
      ds = [⟨1, .invalidOperand (.valueTooLarge 300)⟩, ⟨3, .undefinedLabel "nowhere".toList⟩,
        ⟨4, .invalidOperand .unterminatedText⟩] ∧
      ds.Pairwise (fun d d' => d.line < d'.line) ∧
      ∀ d ∈ ds, d.cause.isAboutPlacement = false := by
  obtain ⟨ds, hds, heq⟩ : ∃ ds, assemble .cdc6504 misread = .error ds ∧ ds = _ := ⟨_, rfl, rfl⟩
  obtain ⟨_, hlines, _, ⟨herror, _⟩ | ⟨_, _, hcauses, _⟩⟩ := report_of_refused hds
  · cases herror
  · exact ⟨ds, hds, heq, hlines, hcauses⟩

end Octet.Assembly
