import Octet.Proofs.Placement.Lines

/-!
# The first pass agrees with the layout

`Placeable` is what the first pass demands of a text, and `positionAfter` what it knows behind some
lines. One line is treated in `visit_of_follows` and `visit_of_not_follows`: it is accepted, and
leads from one position to the next, exactly if it `Follows` the lines before it.

* `collectLabels_of_placeable` — the labels of a text that is placeable are those of its layout.
* `collectLabels_of_not_placeable` — no other text has any.
-/

namespace Octet.Assembly

/-- What has to be right before any operand is looked at. -/
structure Placeable (isa : Isa) (ls : List Line) : Prop where
  /-- No label is empty. -/
  labels_nonempty : ∀ name ∈ labelNames ls, name ≠ []
  /-- No label is declared twice. -/
  labels_nodup : (labelNames ls).Nodup
  /-- The mnemonics of all instruction lines are in the vocabulary. -/
  known : ∀ line ∈ instructionLines ls, ∃ mnemonic size,
    line.mnemonic = some mnemonic ∧ isa.size? mnemonic = some size
  /-- The instructions have room in their memory. -/
  fits : extent isa ls ≤ 256

/-- What the lines before it demand of one more line. -/
structure Line.Follows (isa : Isa) (before : List Line) (line : Line) : Prop where
  label : ∀ name, line.label = some name → name ≠ [] ∧ name ∉ labelNames before
  instruction : ∀ mnemonic, line.instruction? before = some mnemonic →
    ∃ size, isa.size? mnemonic = some size ∧ extent isa before + size.toNat ≤ 256

variable {isa : Isa} {ls before after : List Line} {line : Line}

theorem mem_instructionLines_snoc {line' : Line} :
    line' ∈ instructionLines (before ++ [line]) ↔
      line' ∈ instructionLines before ∨ line' = line ∧ (line.instruction? before).isSome := by
  rw [instructionLines_snoc, List.mem_append]
  cases line.instruction? before <;> simp

theorem Line.size_eq {mnemonic : Token} {size : UInt8} (hmnemonic : line.mnemonic = some mnemonic)
    (hsize : isa.size? mnemonic = some size) : line.size isa = size.toNat := by
  simp [Line.size, hmnemonic, hsize]

theorem Placeable.nil : Placeable isa [] where
  labels_nonempty := by simp [labelNames]
  labels_nodup := by simp [labelNames]
  known := by simp [instructionLines]
  fits := by simp [extent_nil]

theorem Placeable.of_append (h : Placeable isa (before ++ after)) : Placeable isa before where
  labels_nonempty := fun name hname =>
    h.labels_nonempty name (by rw [labelNames_append]; exact List.mem_append_left _ hname)
  labels_nodup := by
    have hnodup := h.labels_nodup
    rw [labelNames_append] at hnodup
    exact hnodup.of_append_left
  known := fun line hline =>
    h.known line (by rw [instructionLines_append]; exact List.mem_append_left _ hline)
  fits := Nat.le_trans extent_le_append h.fits

theorem Placeable.follows (h : Placeable isa (before ++ [line])) : line.Follows isa before := by
  constructor
  · intro name hname
    have hnames : labelNames (before ++ [line]) = labelNames before ++ [name] := by
      simp [labelNames, hname]
    constructor
    · exact h.labels_nonempty name (by simp [hnames])
    · have hnodup := h.labels_nodup
      rw [hnames, List.nodup_append] at hnodup
      exact fun hmem => hnodup.2.2 name hmem name (List.mem_singleton_self _) rfl
  · intro mnemonic hinstruction
    have hmem : line ∈ instructionLines (before ++ [line]) :=
      mem_instructionLines_snoc.mpr (.inr ⟨rfl, by simp [hinstruction]⟩)
    obtain ⟨_, _, hmnemonic⟩ := Line.instruction?_eq_some_iff.mp hinstruction
    obtain ⟨mnemonic', size, hmnemonic', hsize⟩ := h.known line hmem
    obtain rfl := Option.some.inj (hmnemonic.symm.trans hmnemonic')
    refine ⟨size, hsize, ?_⟩
    have hfits := h.fits
    rwa [extent_snoc_of_some hinstruction, Line.size_eq hmnemonic hsize] at hfits

theorem Placeable.snoc (h : Placeable isa before) (hline : line.Follows isa before) :
    Placeable isa (before ++ [line]) where
  labels_nonempty := by
    intro name hname
    rw [labelNames_append, List.mem_append] at hname
    rcases hname with hname | hname
    · exact h.labels_nonempty name hname
    · exact (hline.label name (by simpa [labelNames] using hname)).1
  labels_nodup := by
    rw [labelNames_append, List.nodup_append]
    refine ⟨h.labels_nodup, ?_, ?_⟩
    · cases hname : line.label <;> simp [labelNames, hname]
    · rintro name hname name' hname' rfl
      exact (hline.label name (by simpa [labelNames] using hname')).2 hname
  known := by
    intro line' hline'
    rcases mem_instructionLines_snoc.mp hline' with hline' | ⟨rfl, hsome⟩
    · exact h.known line' hline'
    · obtain ⟨mnemonic, hinstruction⟩ := Option.isSome_iff_exists.mp hsome
      obtain ⟨size, hsize, _⟩ := hline.instruction mnemonic hinstruction
      exact ⟨mnemonic, size, (Line.instruction?_eq_some_iff.mp hinstruction).2.2, hsize⟩
  fits := by
    cases hinstruction : line.instruction? before with
    | none =>
      rw [extent_snoc_of_none hinstruction]
      exact h.fits
    | some mnemonic =>
      obtain ⟨size, hsize, hroom⟩ := hline.instruction mnemonic hinstruction
      have hmnemonic := (Line.instruction?_eq_some_iff.mp hinstruction).2.2
      rwa [extent_snoc_of_some hinstruction, Line.size_eq hmnemonic hsize]

/-! ## One line -/

/-- What is known behind these lines. -/
def positionAfter (isa : Isa) (before : List Line) : Position where
  labels := labelTable isa before
  address := extent isa before
  inData := hasData before

theorem declare_of_new
    (h : ∀ name, line.label = some name → name ≠ [] ∧ name ∉ labelNames before) :
    (positionAfter isa before).declare line.label =
      .ok { positionAfter isa before with labels := labelTable isa (before ++ [line]) } := by
  rw [labelTable_snoc]
  unfold Line.declaration?
  cases hlabel : line.label with
  | none => rfl
  | some name =>
    obtain ⟨hne, hnew⟩ := h name hlabel
    have hnone : (labelTable isa before).address? name = none := by
      rw [LabelTable.address?_eq_none_iff, map_fst_labelTable]
      simpa using hnew
    simp [Position.declare, positionAfter, hne, hnone]

theorem declare_of_not_new {name : Token} (hlabel : line.label = some name)
    (h : name = [] ∨ name ∈ labelNames before) :
    ∃ cause, (positionAfter isa before).declare line.label = .error cause := by
  rw [hlabel]
  unfold Position.declare
  by_cases hempty : name = []
  · exact ⟨.emptyLabel, by simp [hempty]⟩
  · have hmem : name ∈ (labelTable isa before).map (·.1) := by
      rw [map_fst_labelTable]
      simpa using h.resolve_left hempty
    have hsome : (labelTable isa before).address? name ≠ none := fun hnone =>
      LabelTable.address?_eq_none_iff.mp hnone hmem
    refine ⟨.duplicateLabel name, ?_⟩
    simp [hempty, positionAfter, Option.isSome_iff_ne_none, hsome]

theorem visit_of_follows (h : line.Follows isa before) :
    (positionAfter isa before).visit isa line = (positionAfter isa (before ++ [line]), none) := by
  unfold Position.visit
  rw [declare_of_new h.label]
  cases hmnemonic : line.mnemonic with
  | none =>
    have hdata : line.isData = false := by simp [Line.isData, hmnemonic]
    have hnone : line.instruction? before = none := by simp [Line.instruction?, hmnemonic]
    simp [positionAfter, extent_snoc_of_none hnone, hdata]
  | some mnemonic =>
    by_cases hdata : mnemonic = dataMnemonic
    · have hline : line.isData = true := by simp [Line.isData, hmnemonic, hdata]
      have hnone : line.instruction? before = none := by simp [Line.instruction?, hline]
      simp [Position.advance, positionAfter, hdata, hline, extent_snoc_of_none hnone]
    · have hline : line.isData = false := by simpa [Line.isData, hmnemonic] using hdata
      by_cases hbefore : hasData before
      · have hnone : line.instruction? before = none := by simp [Line.instruction?, hbefore]
        simp [Position.advance, positionAfter, hdata, hline, hbefore, extent_snoc_of_none hnone]
      · have hsome : line.instruction? before = some mnemonic :=
          Line.instruction?_eq_some_iff.mpr ⟨by simpa using hbefore, hline, hmnemonic⟩
        obtain ⟨size, hsize, hroom⟩ := h.instruction mnemonic hsome
        have hlimit : ¬ programLimit < extent isa before + size.toNat := Nat.not_lt.mpr hroom
        have hextent : extent isa (before ++ [line]) = extent isa before + size.toNat := by
          rw [extent_snoc_of_some hsome, Line.size_eq hmnemonic hsize]
        simp [Position.advance, positionAfter, hdata, hline, hbefore, hsize, hlimit, hextent]

theorem visit_of_not_follows (h : ¬ line.Follows isa before) :
    ∃ p cause, (positionAfter isa before).visit isa line = (p, some cause) := by
  unfold Position.visit
  by_cases hlabel : ∀ name, line.label = some name → name ≠ [] ∧ name ∉ labelNames before
  · -- the label is right, so it must be the mnemonic that is not
    obtain ⟨mnemonic, hinstruction, hroom⟩ :
        ∃ mnemonic, line.instruction? before = some mnemonic ∧
          ∀ size, isa.size? mnemonic = some size → 256 < extent isa before + size.toNat := by
      by_contra hall
      refine h ⟨hlabel, fun mnemonic hinstruction => ?_⟩
      by_contra hsize
      refine hall ⟨mnemonic, hinstruction, fun size hsome => ?_⟩
      exact Nat.lt_of_not_le fun hle => hsize ⟨size, hsome, hle⟩
    obtain ⟨hbefore, hdata, hmnemonic⟩ := Line.instruction?_eq_some_iff.mp hinstruction
    have hne : mnemonic ≠ dataMnemonic := by simpa [Line.isData, hmnemonic] using hdata
    rw [declare_of_new hlabel, hmnemonic]
    cases hsize : isa.size? mnemonic with
    | none => simp [Position.advance, positionAfter, hne, hbefore, hsize]
    | some size =>
      have hlimit : programLimit < extent isa before + size.toNat := hroom size hsize
      simp [Position.advance, positionAfter, hne, hbefore, hsize, hlimit]
  · obtain ⟨name, hname, hbad⟩ : ∃ name, line.label = some name ∧
        (name = [] ∨ name ∈ labelNames before) := by
      by_contra hall
      refine hlabel fun name hname => ⟨fun hempty => hall ⟨name, hname, .inl hempty⟩, ?_⟩
      exact fun hmem => hall ⟨name, hname, .inr hmem⟩
    obtain ⟨cause, hcause⟩ := declare_of_not_new hname hbad
    exact ⟨_, cause, by rw [hcause]⟩

/-! ## All lines -/

theorem survey_of_placeable (before : List Line) (h : Placeable isa (before ++ ls)) :
    survey isa (positionAfter isa before) ls = (positionAfter isa (before ++ ls), []) := by
  -- over the lines to come; what is known at each of them is the position after the others
  induction ls generalizing before with
  | nil => simp [survey]
  | cons line rest ih =>
    rw [List.append_cons] at h ⊢
    unfold survey
    rw [visit_of_follows h.of_append.follows]
    exact ih _ h

theorem survey_of_not_placeable (hbefore : Placeable isa before)
    (h : ¬ Placeable isa (before ++ ls)) :
    (survey isa (positionAfter isa before) ls).2 ≠ [] := by
  induction ls generalizing before with
  | nil => exact absurd hbefore (by simpa using h)
  | cons line rest ih =>
    unfold survey
    by_cases hfollows : line.Follows isa before
    · -- nothing is wrong with this line, so something is wrong with a later one
      rw [List.append_cons] at h
      rw [visit_of_follows hfollows]
      exact ih (hbefore.snoc hfollows) h
    · obtain ⟨p, cause, hvisit⟩ := visit_of_not_follows hfollows
      -- whether or not the survey goes on, the diagnostic stays in front
      rw [hvisit]
      by_cases hfinal : cause.isFinal <;> simp [hfinal]

theorem collectLabels_of_placeable (h : Placeable isa ls) :
    collectLabels isa ls = .ok (labelTable isa ls) := by
  have hsurvey : survey isa {} ls = _ := survey_of_placeable [] h
  simp [collectLabels, hsurvey, positionAfter]

theorem collectLabels_of_not_placeable (h : ¬ Placeable isa ls) :
    ∃ diagnostics, collectLabels isa ls = .error diagnostics := by
  have hsurvey : (survey isa {} ls).2 ≠ [] := survey_of_not_placeable .nil h
  simp [collectLabels, hsurvey]

theorem placeable_of_collectLabels {labels : LabelTable} (h : collectLabels isa ls = .ok labels) :
    Placeable isa ls := by
  by_contra hnot
  obtain ⟨diagnostics, herror⟩ := collectLabels_of_not_placeable hnot
  cases herror.symm.trans h

end Octet.Assembly
