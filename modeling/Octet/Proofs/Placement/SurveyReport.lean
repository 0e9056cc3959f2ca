import Octet.Proofs.Placement.Refusals

/-!
# What the first pass reports

A line whose label is empty or not new is passed over as a whole, with whatever else is on it: its
instruction takes no room, and its data does not end the instructions. So what the first pass makes of a
line depends on the lines before it that are in order (`soundLines`), and on the names of all labels
before it.

* `Line.placementFlaw?` — what is wrong with a line, given the lines before it.
* `visit_spec` — one line is treated accordingly.
* `mem_survey_iff` — a whole text is, up to the instruction that does not fit.

The main statement is `survey_reports`. It says on which lines unknown instructions are reported, and
that none are behind a data line, unless something is wrong with the label of that line.
-/

namespace Octet.Assembly

variable {isa : Isa} {p : Position} {before after passed ls : List Line} {line : Line} {cause : Cause}
  {name mnemonic : Token}

/-! ## Lines that are in order -/

/-- What is wrong with the label of a line, given the lines before it. -/
def Line.labelFlaw? (before : List Line) (line : Line) : Option Cause :=
  match line.label with
  | none => none
  | some name =>
    if name = [] then some .emptyLabel
    else if name ∈ labelNames before then some (.duplicateLabel name)
    else none

/-- The lines with whose labels nothing is wrong. -/
def soundLines (ls : List Line) : List Line :=
  ((withBefore [] ls).filter fun entry => entry.2.labelFlaw? entry.1 = none).map (·.2)

theorem soundLines_snoc_of_sound (h : line.labelFlaw? before = none) :
    soundLines (before ++ [line]) = soundLines before ++ [line] := by
  unfold soundLines
  rw [withBefore_append, List.filter_append, List.map_append]
  simp [withBefore, h]

theorem soundLines_snoc_of_flaw (h : line.labelFlaw? before = some cause) :
    soundLines (before ++ [line]) = soundLines before := by
  unfold soundLines
  rw [withBefore_append, List.filter_append, List.map_append]
  simp [withBefore, h]

theorem mem_soundLines :
    line ∈ soundLines ls ↔
      ∃ before after, ls = before ++ line :: after ∧ line.labelFlaw? before = none := by
  unfold soundLines
  rw [List.mem_map]
  constructor
  · rintro ⟨⟨before, line⟩, hentry, rfl⟩
    obtain ⟨hmem, hsound⟩ := List.mem_filter.mp hentry
    obtain ⟨_, after, hls, rfl⟩ := mem_withBefore.mp hmem
    exact ⟨_, after, hls, of_decide_eq_true hsound⟩
  · rintro ⟨before, after, hls, hsound⟩
    have hmem := mem_withBefore.mpr ⟨before, after, hls, (List.nil_append before).symm⟩
    exact ⟨_, List.mem_filter.mpr ⟨hmem, decide_eq_true hsound⟩, rfl⟩

theorem hasData_soundLines_iff :
    hasData (soundLines ls) = true ↔
      ∃ before line after, ls = before ++ line :: after ∧ line.isData = true ∧
        line.labelFlaw? before = none := by
  unfold hasData
  rw [List.any_eq_true]
  constructor
  · rintro ⟨line, hmem, hdata⟩
    obtain ⟨before, after, hls, hsound⟩ := mem_soundLines.mp hmem
    exact ⟨before, line, after, hls, hdata, hsound⟩
  · rintro ⟨before, line, after, hls, hdata, hsound⟩
    exact ⟨line, mem_soundLines.mpr ⟨before, after, hls, hsound⟩, hdata⟩

theorem hasData_soundLines_eq_false (h : hasData ls = false) : hasData (soundLines ls) = false := by
  rw [Bool.eq_false_iff] at h ⊢
  intro hsound
  obtain ⟨before, line, after, rfl, hdata, _⟩ := hasData_soundLines_iff.mp hsound
  exact h (List.any_eq_true.mpr ⟨line, by simp, hdata⟩)

/-! ## What is wrong with a line -/

/-- What is wrong with the instruction of a line, given the lines before it that are in order. -/
def Line.instructionFlaw? (isa : Isa) (sound : List Line) (line : Line) : Option Cause :=
  match line.instruction? sound with
  | none => none
  | some mnemonic =>
    match isa.size? mnemonic with
    | none => some (.unknownInstruction mnemonic)
    | some size =>
      let needed := extent isa sound + size.toNat
      if programLimit < needed then some (.programTooLarge needed) else none

theorem Line.instructionFlaw?_of_none {sound : List Line} (h : line.instruction? sound = none) :
    line.instructionFlaw? isa sound = none := by
  rw [instructionFlaw?, h]

theorem Line.instructionFlaw?_of_unknown {sound : List Line}
    (h : line.instruction? sound = some mnemonic) (hsize : isa.size? mnemonic = none) :
    line.instructionFlaw? isa sound = some (.unknownInstruction mnemonic) := by
  rw [instructionFlaw?, h]
  simp only [hsize]

theorem Line.instructionFlaw?_of_known {sound : List Line} {size : UInt8}
    (h : line.instruction? sound = some mnemonic) (hsize : isa.size? mnemonic = some size) :
    line.instructionFlaw? isa sound =
      if programLimit < extent isa sound + size.toNat
      then some (.programTooLarge (extent isa sound + size.toNat)) else none := by
  rw [instructionFlaw?, h]
  simp only [hsize]

/-- What the first pass reports for a line, given the lines before it. -/
def Line.placementFlaw? (isa : Isa) (before : List Line) (line : Line) : Option Cause :=
  (line.labelFlaw? before).or (line.instructionFlaw? isa (soundLines before))

/-! ## One line -/

/-- The counter and the mode of the first pass are those behind some lines. -/
structure Position.Counts (isa : Isa) (sound : List Line) (p : Position) : Prop where
  address_eq : p.address = extent isa sound
  inData_eq : p.inData = hasData sound

/-- What the first pass knows behind some lines, whatever is wrong with them. -/
structure Position.Behind (isa : Isa) (before : List Line) (p : Position) : Prop
    extends p.Counts isa (soundLines before) where
  labels : ∀ name, name ≠ [] → ((p.labels.address? name).isSome ↔ name ∈ labelNames before)

theorem Position.Behind.nil (isa : Isa) : ({} : Position).Behind isa [] where
  address_eq := rfl
  inData_eq := rfl
  labels := by simp [LabelTable.address?, labelNames]

theorem declare_of_flaw (h : p.Behind isa before) (hflaw : line.labelFlaw? before = some cause) :
    p.declare line.label = .error cause := by
  unfold Line.labelFlaw? at hflaw
  cases hlabel : line.label with
  | none =>
    rw [hlabel] at hflaw
    cases hflaw
  | some name =>
    rw [hlabel] at hflaw
    simp only at hflaw
    by_cases hempty : name = []
    · rw [if_pos hempty] at hflaw
      simp [Position.declare, hempty, ← Option.some.inj hflaw]
    · rw [if_neg hempty] at hflaw
      obtain ⟨hmem, hcause⟩ := Option.ite_none_right_eq_some.mp hflaw
      simp [Position.declare, hempty, (h.labels name hempty).mpr hmem, ← Option.some.inj hcause]

theorem Line.label_of_labelFlaw?_none (h : line.labelFlaw? before = none)
    (hlabel : line.label = some name) : name ≠ [] ∧ name ∉ labelNames before := by
  unfold labelFlaw? at h
  rw [hlabel] at h
  simp only at h
  split at h
  · cases h
  · next hne =>
    split at h
    · cases h
    · next hnew => exact ⟨hne, hnew⟩

/-- A name that is refused is empty, or it is there already. -/
theorem mem_labelNames_of_flaw (hflaw : line.labelFlaw? before = some cause) (hne : name ≠ []) :
    name ∈ labelNames (before ++ [line]) ↔ name ∈ labelNames before := by
  unfold Line.labelFlaw? at hflaw
  split at hflaw
  · cases hflaw
  · next refused hlabel =>
    have hnames : labelNames (before ++ [line]) = labelNames before ++ [refused] := by
      simp [labelNames, hlabel]
    rw [hnames, List.mem_append, List.mem_singleton, or_iff_left_iff_imp]
    rintro rfl
    rw [if_neg hne] at hflaw
    exact (Option.ite_none_right_eq_some.mp hflaw).1

theorem declare_of_sound (h : p.Behind isa before) (hsound : line.labelFlaw? before = none) :
    ∃ labels : LabelTable, p.declare line.label = .ok { p with labels } ∧
      ∀ name, name ≠ [] →
        ((labels.address? name).isSome ↔ name ∈ labelNames (before ++ [line])) := by
  cases hlabel : line.label with
  | none =>
    have hnames : labelNames (before ++ [line]) = labelNames before := by simp [labelNames, hlabel]
    rw [hnames]
    exact ⟨p.labels, rfl, h.labels⟩
  | some name =>
    obtain ⟨hne, hnew⟩ := Line.label_of_labelFlaw?_none hsound hlabel
    have hnames : labelNames (before ++ [line]) = labelNames before ++ [name] := by
      simp [labelNames, hlabel]
    have hnone : (p.labels.address? name).isSome = false := by
      rw [Bool.eq_false_iff, Ne, h.labels name hne]
      exact hnew
    refine ⟨(name, UInt8.ofNat p.address) :: p.labels, by simp [Position.declare, hne, hnone], ?_⟩
    intro other hother
    rw [hnames, List.mem_append, List.mem_singleton, ← h.labels other hother]
    unfold LabelTable.address?
    rw [List.lookup_cons]
    by_cases heq : other = name
    · simp [heq]
    · have hbeq : (other == name) = false := by simpa using heq
      simp [heq, hbeq]

theorem advance_of_none {sound : List Line} (h : p.Counts isa sound)
    (hmnemonic : line.mnemonic = some mnemonic) (hnone : line.instruction? sound = none) :
    ∃ inData, p.advance isa mnemonic = .ok { p with inData } ∧
      ({ p with inData } : Position).Counts isa (sound ++ [line]) := by
  have haddress : p.address = extent isa (sound ++ [line]) := by
    rw [extent_snoc_of_none hnone]
    exact h.address_eq
  unfold Position.advance
  by_cases hdata : mnemonic = dataMnemonic
  · have hline : line.isData = true := by simp [Line.isData, hmnemonic, hdata]
    exact ⟨true, if_pos hdata, haddress, by simp [hline]⟩
  · have hline : line.isData = false := by simpa [Line.isData, hmnemonic] using hdata
    have hbefore : hasData sound = true := by simpa [Line.instruction?, hline, hmnemonic] using hnone
    have hmode : p.inData = true := h.inData_eq.trans hbefore
    exact ⟨p.inData, by rw [if_neg hdata, if_pos hmode], haddress, by simp [hmode, hbefore]⟩

theorem advance_of_unknown {sound : List Line} (h : p.Counts isa sound)
    (hsome : line.instruction? sound = some mnemonic) (hsize : isa.size? mnemonic = none) :
    p.advance isa mnemonic = .error (.unknownInstruction mnemonic) := by
  obtain ⟨hbefore, hdata, hmnemonic⟩ := Line.instruction?_eq_some_iff.mp hsome
  have hne : mnemonic ≠ dataMnemonic := by simpa [Line.isData, hmnemonic] using hdata
  simp [Position.advance, hne, h.inData_eq, hbefore, hsize]

theorem advance_of_known {sound : List Line} {size : UInt8} (h : p.Counts isa sound)
    (hsome : line.instruction? sound = some mnemonic) (hsize : isa.size? mnemonic = some size) :
    p.advance isa mnemonic =
      if programLimit < extent isa sound + size.toNat
      then .error (.programTooLarge (extent isa sound + size.toNat))
      else .ok { p with address := extent isa sound + size.toNat } := by
  obtain ⟨hbefore, hdata, hmnemonic⟩ := Line.instruction?_eq_some_iff.mp hsome
  have hne : mnemonic ≠ dataMnemonic := by simpa [Line.isData, hmnemonic] using hdata
  simp [Position.advance, hne, h.inData_eq, hbefore, hsize, h.address_eq]

/-- The instruction of a line is counted, or it is reported. One that is not known has no size. -/
theorem advance_spec {sound : List Line} (h : p.Counts isa sound)
    (hmnemonic : line.mnemonic = some mnemonic) :
    (∃ next, p.advance isa mnemonic = .ok next ∧ line.instructionFlaw? isa sound = none ∧
      next.Counts isa (sound ++ [line]) ∧ next.labels = p.labels) ∨
    ∃ cause, p.advance isa mnemonic = .error cause ∧
      line.instructionFlaw? isa sound = some cause ∧
      (cause.isFinal = false → p.Counts isa (sound ++ [line])) := by
  cases hinstruction : line.instruction? sound with
  | none =>
    obtain ⟨inData, hadvance, hcounts⟩ := advance_of_none h hmnemonic hinstruction
    exact .inl ⟨_, hadvance, Line.instructionFlaw?_of_none hinstruction, hcounts, rfl⟩
  | some mnemonic' =>
    obtain ⟨_, hdata, hmnemonic'⟩ := Line.instruction?_eq_some_iff.mp hinstruction
    obtain rfl := Option.some.inj (hmnemonic'.symm.trans hmnemonic)
    have hmode : p.inData = hasData (sound ++ [line]) := by simp [h.inData_eq, hdata]
    cases hsize : isa.size? mnemonic' with
    | none =>
      have hzero : line.size isa = 0 := by simp [Line.size, hmnemonic, hsize]
      refine .inr ⟨_, advance_of_unknown h hinstruction hsize,
        Line.instructionFlaw?_of_unknown hinstruction hsize, fun _ => ⟨?_, hmode⟩⟩
      rw [extent_snoc_of_some hinstruction, hzero]
      exact h.address_eq
    | some size =>
      have hadvance := advance_of_known h hinstruction hsize
      have hflaw := Line.instructionFlaw?_of_known hinstruction hsize
      by_cases hlimit : programLimit < extent isa sound + size.toNat
      · rw [if_pos hlimit] at hadvance hflaw
        exact .inr ⟨_, hadvance, hflaw, fun hfinal => by cases hfinal⟩
      · rw [if_neg hlimit] at hadvance hflaw
        refine .inl ⟨_, hadvance, hflaw, ⟨?_, hmode⟩, rfl⟩
        rw [extent_snoc_of_some hinstruction, Line.size_eq hmnemonic hsize]

theorem visit_of_flaw (h : p.Behind isa before) (hflaw : line.labelFlaw? before = some cause) :
    p.visit isa line = (p, some cause) ∧ p.Behind isa (before ++ [line]) := by
  refine ⟨by rw [Position.visit, declare_of_flaw h hflaw], ?_, ?_⟩
  · rw [soundLines_snoc_of_flaw hflaw]
    exact h.toCounts
  · intro name hne
    rw [h.labels name hne, mem_labelNames_of_flaw hflaw hne]

theorem visit_of_sound (h : p.Behind isa before) (hsound : line.labelFlaw? before = none) :
    (p.visit isa line).2 = line.instructionFlaw? isa (soundLines before) ∧
      ((∀ cause, line.instructionFlaw? isa (soundLines before) = some cause →
          cause.isFinal = false) →
        (p.visit isa line).1.Behind isa (before ++ [line])) := by
  obtain ⟨labels, hdeclare, hlabels⟩ := declare_of_sound h hsound
  have hcounts : ({ p with labels } : Position).Counts isa (soundLines before) :=
    ⟨h.address_eq, h.inData_eq⟩
  have hbehind {next : Position} (hnext : next.Counts isa (soundLines before ++ [line]))
      (hkept : next.labels = labels) : next.Behind isa (before ++ [line]) := by
    rw [← soundLines_snoc_of_sound hsound] at hnext
    exact ⟨hnext, hkept ▸ hlabels⟩
  unfold Position.visit
  rw [hdeclare]
  cases hmnemonic : line.mnemonic with
  | none =>
    have hnone : line.instruction? (soundLines before) = none := by
      simp [Line.instruction?, hmnemonic]
    have hdata : line.isData = false := by simp [Line.isData, hmnemonic]
    refine ⟨(Line.instructionFlaw?_of_none hnone).symm, fun _ => hbehind ⟨?_, ?_⟩ rfl⟩
    · rw [extent_snoc_of_none hnone]
      exact hcounts.address_eq
    · simpa [hdata] using hcounts.inData_eq
  | some mnemonic =>
    rcases advance_spec hcounts hmnemonic with
      ⟨next, hadvance, hflaw, hnext, hkept⟩ | ⟨cause, hadvance, hflaw, hnext⟩
    · simp only [hadvance]
      exact ⟨hflaw.symm, fun _ => hbehind hnext hkept⟩
    · simp only [hadvance]
      exact ⟨hflaw.symm, fun hfinal => hbehind (hnext (hfinal cause hflaw)) rfl⟩

/-- What is reported for a line is its flaw. Unless this is final, the pass goes on behind the line. -/
theorem visit_spec (h : p.Behind isa before) (line : Line) :
    (p.visit isa line).2 = line.placementFlaw? isa before ∧
      ((∀ cause, line.placementFlaw? isa before = some cause → cause.isFinal = false) →
        (p.visit isa line).1.Behind isa (before ++ [line])) := by
  unfold Line.placementFlaw?
  cases hlabel : line.labelFlaw? before with
  | some cause =>
    obtain ⟨hvisit, hbehind⟩ := visit_of_flaw h hlabel
    rw [hvisit]
    exact ⟨rfl, fun _ => hbehind⟩
  | none => exact visit_of_sound h hlabel

/-! ## All lines -/

/-- The pass has come to this line: it has not ended with an earlier one. -/
def Reached (ds : List Diagnostic) (line : Line) : Prop :=
  ∀ d ∈ ds, d.cause.isFinal = true → line.number ≤ d.line

instance (ds : List Diagnostic) (line : Line) : Decidable (Reached ds line) :=
  inferInstanceAs (Decidable (∀ d ∈ ds, d.cause.isFinal = true → line.number ≤ d.line))

theorem lt_line_of_mem_survey {d : Diagnostic}
    (hnumbers : (line :: after).Pairwise fun line line' => line.number < line'.number)
    (hd : d ∈ (survey isa p after).2) : line.number < d.line := by
  obtain ⟨line', hmem, hnumber⟩ :=
    List.mem_map.mp ((survey_lines p after).subset (List.mem_map_of_mem hd))
  rw [← hnumber]
  exact List.rel_of_pairwise_cons hnumbers hmem

/-- A line that the pass has come to is reported with its flaw. -/
theorem mem_survey_of_reached (h : p.Behind isa before)
    (hnumbers : (passed ++ line :: after).Pairwise fun line line' => line.number < line'.number)
    (hreached : Reached (survey isa p (passed ++ line :: after)).2 line) :
    ⟨line.number, cause⟩ ∈ (survey isa p (passed ++ line :: after)).2 ↔
      line.placementFlaw? isa (before ++ passed) = some cause := by
  -- over the lines in front of this one; none of them can be the last one that is looked at
  induction passed generalizing before p with
  | nil =>
    obtain ⟨hflaw, -⟩ := visit_spec h line
    rw [List.append_nil, ← hflaw, List.nil_append, survey]
    have hlater {next : Position} : ⟨line.number, cause⟩ ∉ (survey isa next after).2 :=
      fun hmem => Nat.lt_irrefl _ (lt_line_of_mem_survey hnumbers hmem)
    rcases p.visit isa line with ⟨next, _ | found⟩
    · simpa using hlater
    · by_cases hfinal : found.isFinal
      · simp [hfinal, eq_comm]
      · simp [hfinal, hlater, eq_comm]
  | cons first passed ih =>
    obtain ⟨hflaw, hbehind⟩ := visit_spec h first
    have hlt : first.number < line.number := List.rel_of_pairwise_cons hnumbers (by simp)
    have hrest := List.Pairwise.of_cons hnumbers
    rw [List.append_cons before first passed]
    rw [List.cons_append, survey] at hreached ⊢
    rcases hvisit : p.visit isa first with ⟨next, _ | found⟩
    · rw [hvisit] at hflaw hbehind hreached
      exact ih (hbehind fun cause hcause => by cases hflaw.trans hcause) hrest hreached
    · rw [hvisit] at hflaw hbehind hreached
      by_cases hfinal : found.isFinal
      · -- the pass would have ended before this line
        simp only [if_pos hfinal] at hreached
        exact absurd (hreached _ List.mem_cons_self hfinal) (Nat.not_le_of_lt hlt)
      · simp only [if_neg hfinal] at hreached ⊢
        have hgoes : next.Behind isa (before ++ [first]) := by
          apply hbehind
          intro cause hcause
          obtain rfl := Option.some.inj (hflaw.trans hcause)
          exact Bool.eq_false_iff.mpr hfinal
        have hne : (⟨line.number, cause⟩ : Diagnostic) ≠ ⟨first.number, found⟩ := by
          intro heq
          exact Nat.ne_of_gt hlt (congrArg Diagnostic.line heq)
        rw [List.mem_cons, or_iff_right hne]
        exact ih hgoes hrest fun d hd => hreached d (List.mem_cons_of_mem _ hd)

/-- A line that is reported is one that the pass has come to. -/
theorem reached_of_mem {ds : List Diagnostic} (hlines : ds.Pairwise fun d d' => d.line < d'.line)
    (hfinal : ∀ d ∈ ds.dropLast, d.cause.isFinal = false) (hmem : ⟨line.number, cause⟩ ∈ ds) :
    Reached ds line := by
  intro d hd hlast
  have hne : ds ≠ [] := List.ne_nil_of_mem hd
  rw [← List.dropLast_concat_getLast hne] at hlines hmem hd
  have hlater := (List.pairwise_append.mp hlines).2.2
  rcases List.mem_append.mp hd with hd | hd
  · cases (hfinal d hd).symm.trans hlast
  · rcases List.mem_append.mp hmem with hmem | hmem
    · exact Nat.le_of_lt (hlater _ hmem d hd)
    · rw [List.mem_singleton.mp hd, ← List.mem_singleton.mp hmem]

/-- The report of the first pass on a text: the flaws of the lines that the pass has come to. -/
theorem mem_survey_iff {source : String}
    (hsplit : lines isa.commentMarks source.toList = before ++ line :: after) :
    let ds := (survey isa {} (lines isa.commentMarks source.toList)).2
    ⟨line.number, cause⟩ ∈ ds ↔ Reached ds line ∧ line.placementFlaw? isa before = some cause := by
  intro ds
  have hnumbers := pairwise_number_lines isa.commentMarks source.toList
  have hreport : Reached ds line →
      (⟨line.number, cause⟩ ∈ ds ↔ line.placementFlaw? isa before = some cause) := by
    intro hreached
    simp only [ds, hsplit] at hreached hnumbers ⊢
    exact mem_survey_of_reached (.nil isa) hnumbers hreached
  constructor
  · intro hmem
    have hlines : ReportsLines ds (lines isa.commentMarks source.toList) := survey_lines {} _
    have hreached := reached_of_mem hlines.pairwise (survey_final {} _) hmem
    exact ⟨hreached, (hreport hreached).mp hmem⟩
  · rintro ⟨hreached, hflaw⟩
    exact (hreport hreached).mpr hflaw

/-! ## What the flaws are -/

theorem Line.labelFlaw?_cases (h : line.labelFlaw? before = some cause) :
    cause = .emptyLabel ∨ ∃ name, cause = .duplicateLabel name := by
  unfold labelFlaw? at h
  split at h
  · cases h
  · split at h
    · exact .inl (Option.some.inj h).symm
    · exact .inr ⟨_, (Option.some.inj (Option.ite_none_right_eq_some.mp h).2).symm⟩

/-- A line is reported for its instruction only if nothing is wrong with its label. -/
theorem Line.placementFlaw?_eq_some_iff (hempty : cause ≠ .emptyLabel)
    (hduplicate : ∀ name, cause ≠ .duplicateLabel name) :
    line.placementFlaw? isa before = some cause ↔
      line.labelFlaw? before = none ∧
        line.instructionFlaw? isa (soundLines before) = some cause := by
  have hlabel : line.labelFlaw? before ≠ some cause := by
    intro hlabel
    rcases labelFlaw?_cases hlabel with h | ⟨name, h⟩
    · exact hempty h
    · exact hduplicate name h
  rw [placementFlaw?, Option.or_eq_some_iff, or_iff_right hlabel]

theorem Line.placementFlaw?_eq_unknown_iff :
    line.placementFlaw? isa before = some (.unknownInstruction mnemonic) ↔
      line.labelFlaw? before = none ∧
        line.instruction? (soundLines before) = some mnemonic ∧ isa.size? mnemonic = none := by
  rw [placementFlaw?_eq_some_iff (by simp) (by simp), and_congr_right_iff]
  intro _
  cases hinstruction : line.instruction? (soundLines before) with
  | none => simp [instructionFlaw?_of_none hinstruction]
  | some found =>
    cases hsize : isa.size? found with
    | none =>
      rw [instructionFlaw?_of_unknown hinstruction hsize, Option.some.injEq, Option.some.injEq,
        Cause.unknownInstruction.injEq]
      exact ⟨fun h => ⟨h, h ▸ hsize⟩, And.left⟩
    | some size =>
      rw [instructionFlaw?_of_known hinstruction hsize, Option.ite_none_right_eq_some]
      refine ⟨nofun, ?_⟩
      rintro ⟨⟨⟩, hnone⟩
      cases hsize.symm.trans hnone

theorem Line.placementFlaw?_eq_tooLarge_iff {needed : Nat} :
    line.placementFlaw? isa before = some (.programTooLarge needed) ↔
      line.labelFlaw? before = none ∧
        ∃ mnemonic size, line.instruction? (soundLines before) = some mnemonic ∧
          isa.size? mnemonic = some size ∧ needed = extent isa (soundLines before) + size.toNat ∧
          programLimit < needed := by
  rw [placementFlaw?_eq_some_iff (by simp) (by simp), and_congr_right_iff]
  intro _
  cases hinstruction : line.instruction? (soundLines before) with
  | none => simp [instructionFlaw?_of_none hinstruction]
  | some found =>
    cases hsize : isa.size? found with
    | none =>
      rw [instructionFlaw?_of_unknown hinstruction hsize]
      refine ⟨nofun, ?_⟩
      rintro ⟨_, size, ⟨⟩, hsome, _⟩
      cases hsize.symm.trans hsome
    | some size =>
      rw [instructionFlaw?_of_known hinstruction hsize, Option.ite_none_right_eq_some,
        Option.some.injEq, Cause.programTooLarge.injEq]
      constructor
      · rintro ⟨hlimit, rfl⟩
        exact ⟨found, size, rfl, hsize, rfl, hlimit⟩
      · rintro ⟨_, size', ⟨⟩, hsize', rfl, hlimit⟩
        obtain rfl := Option.some.inj (hsize.symm.trans hsize')
        exact ⟨hlimit, rfl⟩

/-- Behind a data line that is in order, no instruction is looked at. -/
theorem Line.placementFlaw?_behind_data (h : hasData (soundLines before) = true) :
    line.placementFlaw? isa before = line.labelFlaw? before := by
  have hnone : line.instruction? (soundLines before) = none := by simp [instruction?, h]
  rw [placementFlaw?, instructionFlaw?_of_none hnone, Option.or_none]

/-- An instruction that is not known is reported if it stands before all data, unless something is wrong
with its label. -/
theorem Line.placementFlaw?_of_unknown (hdata : hasData (before ++ [line]) = false)
    (hmnemonic : line.mnemonic = some mnemonic) (hsize : isa.size? mnemonic = none) :
    line.placementFlaw? isa before =
      some ((line.labelFlaw? before).getD (.unknownInstruction mnemonic)) := by
  obtain ⟨hbefore, hline⟩ : hasData before = false ∧ line.isData = false := by simpa using hdata
  have hinstruction : line.instruction? (soundLines before) = some mnemonic :=
    instruction?_eq_some_iff.mpr ⟨hasData_soundLines_eq_false hbefore, hline, hmnemonic⟩
  rw [placementFlaw?, instructionFlaw?_of_unknown hinstruction hsize]
  cases line.labelFlaw? before <;> rfl

/-- **What the first pass reports.** Take a line of a text that the pass comes to, that is, one that is not
behind an instruction which does not fit. If it stands before the first data line and its mnemonic is not
known, it is reported: for its label if something is wrong with that, and for the mnemonic otherwise.
Unknown instructions, and instructions that do not fit, are reported for the lines whose labels are in
order and that stand behind no data line in order, and for no others. So behind a data line whose label is
in order only labels are reported, whatever is wrong with other labels. -/
theorem survey_reports {source : String}
    (hsplit : lines isa.commentMarks source.toList = before ++ line :: after) :
    let ds := (survey isa {} (lines isa.commentMarks source.toList)).2
    (ds ≠ [] → assemble isa source = .error ds) ∧
      (Reached ds line → hasData (before ++ [line]) = false → ∀ mnemonic,
        line.mnemonic = some mnemonic → isa.size? mnemonic = none →
          ⟨line.number, (line.labelFlaw? before).getD (.unknownInstruction mnemonic)⟩ ∈ ds) ∧
      (∀ mnemonic, ⟨line.number, .unknownInstruction mnemonic⟩ ∈ ds ↔
        Reached ds line ∧ line.labelFlaw? before = none ∧
          line.instruction? (soundLines before) = some mnemonic ∧ isa.size? mnemonic = none) ∧
      (∀ needed, ⟨line.number, .programTooLarge needed⟩ ∈ ds ↔
        Reached ds line ∧ line.labelFlaw? before = none ∧
          ∃ mnemonic size, line.instruction? (soundLines before) = some mnemonic ∧
            isa.size? mnemonic = some size ∧ needed = extent isa (soundLines before) + size.toNat ∧
            programLimit < needed) ∧
      ∀ front data rest, before = front ++ data :: rest → data.isData = true →
        data.labelFlaw? front = none →
        ∀ cause, ⟨line.number, cause⟩ ∈ ds → line.labelFlaw? before = some cause := by
  intro ds
  have hreport : ∀ cause, ⟨line.number, cause⟩ ∈ ds ↔ _ := fun _ => mem_survey_iff hsplit
  refine ⟨?_, ?_, ?_, ?_, ?_⟩
  · intro hne
    have hcollect : collectLabels isa (lines isa.commentMarks source.toList) = .error ds :=
      if_neg (by simpa using hne)
    simp only [assemble, hcollect]
  · intro hreached hdata mnemonic hmnemonic hsize
    rw [hreport]
    exact ⟨hreached, Line.placementFlaw?_of_unknown hdata hmnemonic hsize⟩
  · intro mnemonic
    rw [hreport, Line.placementFlaw?_eq_unknown_iff]
  · intro needed
    rw [hreport, Line.placementFlaw?_eq_tooLarge_iff]
  · intro front data rest hbefore hdata hsound cause hmem
    obtain ⟨_, hflaw⟩ := (hreport cause).mp hmem
    rw [← hflaw]
    exact (Line.placementFlaw?_behind_data
      (hasData_soundLines_iff.mpr ⟨front, data, rest, hbefore, hdata, hsound⟩)).symm

/-- Two data lines, the first one with a label that is not new. -/
def relabelledData : String :=
  "a: HALT\na: DATA 1\nFOO\nDATA 2\nBAR"

/-- The unknown instruction behind the first data line is reported, and the one behind the second is
not. -/
theorem survey_reports_relabelled :
    let ls := lines Isa.cdc8512.commentMarks relabelledData.toList
    let ds := (survey .cdc8512 {} ls).2
    ls.map Line.number = [1, 2, 3, 4, 5] ∧ ⟨3, .unknownInstruction "FOO".toList⟩ ∈ ds ∧
      ∀ cause, ⟨5, cause⟩ ∉ ds := by
  intro ls ds
  refine ⟨rfl, ?_, ?_⟩
  · have hsplit : lines Isa.cdc8512.commentMarks relabelledData.toList =
      ls.take 2 ++ _ :: ls.drop 3 := rfl
    obtain ⟨-, -, hunknown, -, -⟩ := survey_reports hsplit
    exact (hunknown "FOO".toList).mpr ⟨by decide, rfl, rfl, rfl⟩
  · have hsplit : lines Isa.cdc8512.commentMarks relabelledData.toList =
      ls.take 4 ++ _ :: ls.drop 5 := rfl
    obtain ⟨-, -, -, -, hbehind⟩ := survey_reports hsplit
    intro cause hmem
    cases hbehind (ls.take 3) _ [] rfl rfl rfl cause hmem

/-- An unknown instruction is reported behind a data line, since the label of that line is not new. -/
theorem unknown_behind_refused_data :
    let source := "a: HALT\na: DATA 1\nFOO"
    let ls := lines Isa.cdc8512.commentMarks source.toList
    assemble .cdc8512 source =
        .error [⟨2, .duplicateLabel "a".toList⟩, ⟨3, .unknownInstruction "FOO".toList⟩] ∧
      ∃ first data line, ls = [first, data, line] ∧ data.mnemonic = some dataMnemonic ∧
        line.number = 3 :=
  ⟨rfl, _, _, _, rfl, rfl, rfl⟩

end Octet.Assembly
