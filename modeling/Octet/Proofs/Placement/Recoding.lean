import Octet.Proofs.Placement.Alike

/-!
# Other lines with the same code

Lines may differ from those of a text in everything but the codes that they stand for: `Recodes` says
this of lines without labels and data that stand for the instruction lines of a text one by one. Since
sizes depend on mnemonics only, they start where those lines do, and they are assembled to the same
instructions (`Recodes.laidOut_eq`).
-/

namespace Octet.Assembly

/-- A line without a label that is encoded as another one is, wherever it stands. -/
structure Line.Recodes (isa : Isa) (ctx : Context) (line line' : Line) : Prop where
  label : line'.label = none
  mnemonic : line'.mnemonic = line.mnemonic
  code : ∃ mnemonic code, line.mnemonic = some mnemonic ∧
    isa.encode ctx mnemonic (tokens line.operands) = .ok code ∧
    ∀ ctx' : Context, ctx'.labels = [] →
      isa.encode ctx' mnemonic (tokens line'.operands) = .ok code

/-- Lines that stand for the instruction lines of a text one by one. -/
structure Recodes (isa : Isa) (ls ls' : List Line) : Prop where
  length_eq : ls'.length = (instructionLines ls).length
  lines : ∀ k (line : Line), (instructionLines ls)[k]? = some line → ∃ line', ls'[k]? = some line' ∧
    line.Recodes isa { address := UInt8.ofNat (start isa ls k), labels := labelTable isa ls } line'

variable {isa : Isa} {ls ls' : List Line} {line line' : Line} {k : Nat}

/-! ## What they come to -/

namespace Recodes

theorem exists_of_mem (h : Recodes isa ls ls') (hline' : line' ∈ ls') :
    ∃ line ∈ instructionLines ls, ∃ ctx, line.Recodes isa ctx line' := by
  obtain ⟨k, hk⟩ := List.getElem?_of_mem hline'
  have hlt : k < (instructionLines ls).length := h.length_eq ▸ (List.getElem?_eq_some_iff.mp hk).1
  have hline := List.getElem?_eq_getElem hlt
  obtain ⟨line'', hline'', hrecodes⟩ := h.lines k _ hline
  obtain rfl := Option.some.inj (hk.symm.trans hline'')
  exact ⟨_, List.mem_of_getElem? hline, _, hrecodes⟩

theorem instruction_of_mem (h : Recodes isa ls ls') (hline' : line' ∈ ls') :
    line'.isData = false ∧ line'.mnemonic.isSome := by
  obtain ⟨line, hline, _, hrecodes⟩ := h.exists_of_mem hline'
  rw [Line.isData, hrecodes.mnemonic]
  exact of_mem_instructionLines hline

theorem instructionLines_eq (h : Recodes isa ls ls') : instructionLines ls' = ls' :=
  instructionLines_eq_self fun _ => h.instruction_of_mem

theorem dataLines_eq (h : Recodes isa ls ls') : dataLines ls' = [] :=
  List.filter_eq_nil_iff.mpr fun line hline => by simp [(h.instruction_of_mem hline).1]

theorem labelNames_eq (h : Recodes isa ls ls') : labelNames ls' = [] :=
  List.filterMap_eq_nil_iff.mpr fun line' hline' => by
    obtain ⟨_, _, _, hrecodes⟩ := h.exists_of_mem hline'
    exact hrecodes.label

theorem labelTable_eq (h : Recodes isa ls ls') : labelTable isa ls' = [] := by
  rw [← List.map_eq_nil_iff (f := (·.1)), map_fst_labelTable, h.labelNames_eq, List.reverse_nil]

theorem map_size (h : Recodes isa ls ls') :
    ls'.map (Line.size isa) = (instructionLines ls).map (Line.size isa) := by
  refine List.ext_getElem? fun k => ?_
  rw [List.getElem?_map, List.getElem?_map]
  cases hline : (instructionLines ls)[k]? with
  | none =>
    rw [List.getElem?_eq_none_iff, ← h.length_eq, ← List.getElem?_eq_none_iff] at hline
    rw [hline]
  | some line =>
    obtain ⟨line', hline', hrecodes⟩ := h.lines k line hline
    rw [hline', Option.map_some, Option.map_some, Line.size, Line.size, hrecodes.mnemonic]

theorem start_eq (h : Recodes isa ls ls') (k : Nat) : start isa ls' k = start isa ls k := by
  unfold start
  rw [h.instructionLines_eq, List.map_take, List.map_take, h.map_size]

theorem extent_eq (h : Recodes isa ls ls') : extent isa ls' = extent isa ls := by
  unfold extent
  rw [h.instructionLines_eq, h.map_size]

theorem assemblable (h : Recodes isa ls ls') (hls : Assemblable isa ls) : Assemblable isa ls' where
  labels_nonempty := by simp [h.labelNames_eq]
  labels_nodup := by simp [h.labelNames_eq]
  known line' hline' := by
    obtain ⟨line, hline, _, hrecodes⟩ := h.exists_of_mem (h.instructionLines_eq ▸ hline')
    rw [hrecodes.mnemonic]
    exact hls.known line hline
  fits := by
    rw [h.extent_eq]
    exact hls.fits
  encodes k line' hline' := by
    rw [h.instructionLines_eq] at hline'
    obtain ⟨line, _, _, hrecodes⟩ := h.exists_of_mem (List.mem_of_getElem? hline')
    obtain ⟨mnemonic, code, hmnemonic, _, hcode⟩ := hrecodes.code
    exact ⟨mnemonic, code, hrecodes.mnemonic.trans hmnemonic, hcode _ h.labelTable_eq⟩
  loads := by simp [h.dataLines_eq]

/-- The two programs hold the same code up to each of their lines. -/
theorem take_start (h : Recodes isa ls ls') (hls : Layout isa ls (laidOut isa ls))
    (hls' : Layout isa ls' (laidOut isa ls')) (hk : k ≤ (instructionLines ls).length) :
    (laidOut isa ls').instructions.toList.take (start isa ls k) =
      (laidOut isa ls).instructions.toList.take (start isa ls k) := by
  induction k with
  | zero => rfl
  | succ k ih =>
    have hline := List.getElem?_eq_getElem hk
    obtain ⟨line', hline', hrecodes⟩ := h.lines k _ hline
    obtain ⟨mnemonic, code, hmnemonic, hcode, hcode'⟩ := hrecodes.code
    obtain ⟨hnext, hbytes⟩ := hls.code_at hline hmnemonic hcode
    obtain ⟨_, hbytes'⟩ := hls'.code_at (by rw [h.instructionLines_eq]; exact hline')
      (hrecodes.mnemonic.trans hmnemonic) (hcode' _ h.labelTable_eq)
    rw [h.start_eq] at hbytes'
    rw [hnext, List.take_add, List.take_add, hbytes, hbytes', ih (Nat.le_of_succ_le hk)]

/-- **The same code makes the same instructions.** -/
theorem laidOut_eq (h : Recodes isa ls ls') (hls : Assemblable isa ls) :
    laidOut isa ls' = { laidOut isa ls with data := .zero, labels := [] } := by
  have hlayout := hls.layout
  have hlayout' := (h.assemblable hls).layout
  have hinstructions : (laidOut isa ls').instructions = (laidOut isa ls).instructions := by
    refine Bank.eq_of_read fun a => ?_
    by_cases ha : a.toNat < extent isa ls
    · have htake := h.take_start hlayout hlayout' (Nat.le_refl _)
      rw [start_length] at htake
      apply Option.some.inj
      rw [Bank.read_eq_getElem, Bank.read_eq_getElem, ← List.getElem?_take_of_lt ha, htake,
        List.getElem?_take_of_lt ha]
    · have hbehind := Nat.le_of_not_lt ha
      rw [hlayout.zero_behind a hbehind, hlayout'.zero_behind a (h.extent_eq.trans_le hbehind)]
  have hdata : (laidOut isa ls').data = .zero := by
    rw [laidOut, fill_data, h.dataLines_eq]
    rfl
  calc laidOut isa ls'
      = ⟨(laidOut isa ls').instructions, (laidOut isa ls').data, extent isa ls',
          labelTable isa ls'⟩ := rfl
    _ = { laidOut isa ls with data := .zero, labels := [] } := by
        rw [hinstructions, hdata, h.extent_eq, h.labelTable_eq]
        rfl

end Recodes

end Octet.Assembly
