import Octet.Assembly.Program
import Octet.Proofs.Bank
import Octet.Proofs.Encoding.RoundTrip
import Octet.Proofs.Placement.Survey

/-!
# The second pass agrees with the layout

The second pass counts bytes by itself, and comes to the extent of the lines behind it, as the first
one does (`add_spec`). So it writes each instruction where the ones before it end, and what it leaves
in the instruction memory is one run of bytes.

* `Line.Encodes` — what the second pass demands of a line; `fill_spec` says that it demands nothing
  else.
* `fill_instructions` — the run of bytes that it leaves.
-/

namespace Octet.Assembly

variable {isa : Isa} {labels : LabelTable} {image : Image} {before ls : List Line} {line : Line}

/-! ## One line -/

/-- Whether the operands of a data line can be loaded, whatever the data memory holds. -/
def Loads (operands : List Char) : Prop :=
  ∃ n, ∀ bank, (loadData bank operands).2 = .ok n

theorem loadList_snd (bank bank' : Bank) (address : Nat) (values : List Token) :
    (loadList bank address values).2 = (loadList bank' address values).2 := by
  induction values generalizing bank bank' address with
  | nil => rfl
  | cons token rest ih =>
    unfold loadList
    split
    · split
      · exact ih _ _ _
      · rfl
    · rfl

/-- What a data line comes to does not depend on the data before it. -/
theorem loadData_snd (bank bank' : Bank) (operands : List Char) :
    (loadData bank operands).2 = (loadData bank' operands).2 := by
  unfold loadData
  split
  · rfl
  · split
    · unfold loadText
      split <;> rfl
    · exact loadList_snd _ _ _ _

theorem loads_iff {operands : List Char} (bank : Bank) :
    Loads operands ↔ ∃ n, (loadData bank operands).2 = .ok n := by
  constructor
  · rintro ⟨n, h⟩
    exact ⟨n, h bank⟩
  · rintro ⟨n, h⟩
    exact ⟨n, fun bank' => (loadData_snd bank' bank operands).trans h⟩

/-- What the second pass demands of a line. -/
structure Line.Encodes (isa : Isa) (labels : LabelTable) (before : List Line) (line : Line) :
    Prop where
  data : line.isData = true → Loads line.operands
  instruction : ∀ mnemonic, line.instruction? before = some mnemonic → ∃ code,
    isa.encode { address := UInt8.ofNat (extent isa before), labels } mnemonic
      (tokens line.operands) = .ok code

/-- The bytes of an instruction, none if it could not be encoded. -/
def bytesOf : Except Cause Code → List UInt8
  | .ok code => code.bytes
  | .error _ => []

/-- The instruction bytes of a line. -/
def Line.bytes (isa : Isa) (labels : LabelTable) (before : List Line) (line : Line) : List UInt8 :=
  match line.instruction? before with
  | none => []
  | some mnemonic =>
    bytesOf (isa.encode { address := UInt8.ofNat (extent isa before), labels } mnemonic
      (tokens line.operands))

theorem Line.bytes_of_some {mnemonic : Token} (h : line.instruction? before = some mnemonic) :
    line.bytes isa labels before = bytesOf (isa.encode
      { address := UInt8.ofNat (extent isa before), labels } mnemonic (tokens line.operands)) := by
  rw [bytes, h]

theorem Line.bytes_of_none (h : line.instruction? before = none) :
    line.bytes isa labels before = [] := by
  rw [bytes, h]

theorem Line.encodes_iff_of_some {mnemonic : Token}
    (h : line.instruction? before = some mnemonic) :
    line.Encodes isa labels before ↔ ∃ code, isa.encode
      { address := UInt8.ofNat (extent isa before), labels } mnemonic (tokens line.operands) =
        .ok code := by
  constructor
  · intro hencodes
    exact hencodes.instruction mnemonic h
  · intro hcode
    have hdata := (Line.instruction?_eq_some_iff.mp h).2.1
    refine ⟨?_, ?_⟩
    · intro htrue
      cases hdata.symm.trans htrue
    · intro mnemonic' h'
      obtain rfl := Option.some.inj (h.symm.trans h')
      exact hcode

theorem Line.encodes_iff_of_none (h : line.instruction? before = none) :
    line.Encodes isa labels before ↔ (line.isData = true → Loads line.operands) := by
  constructor
  · intro hencodes
    exact hencodes.data
  · intro hloads
    refine ⟨hloads, ?_⟩
    intro mnemonic h'
    cases h.symm.trans h'

/-- The counter and the mode of the second pass are those behind some lines. -/
structure Image.Behind (isa : Isa) (before : List Line) (image : Image) : Prop where
  address_eq : image.address = extent isa before
  inData_eq : image.inData = hasData before

theorem addData_spec (image : Image) (operands : List Char) :
    (image.addData operands).1.address = image.address ∧
      (image.addData operands).1.inData = true ∧
      (image.addData operands).1.instructions = image.instructions ∧
      ((image.addData operands).2 = none ↔ Loads operands) := by
  rw [loads_iff image.data]
  unfold Image.addData
  rcases loadData image.data operands with ⟨data, result⟩
  cases result <;> simp

theorem addInstruction_spec (image : Image) (labels : LabelTable) {mnemonic : Token} {size : UInt8}
    (hsize : isa.size? mnemonic = some size) (operands : List Char) :
    let added := image.addInstruction isa labels mnemonic operands
    let code := isa.encode { address := UInt8.ofNat image.address, labels } mnemonic (tokens operands)
    added.1.address = image.address + size.toNat ∧ added.1.inData = image.inData ∧
      added.1.instructions =
        image.instructions.writeBytes (UInt8.ofNat image.address) (bytesOf code) ∧
      (added.2 = none ↔ ∃ c, code = .ok c) := by
  simp only [Image.addInstruction, hsize]
  cases isa.encode { address := UInt8.ofNat image.address, labels } mnemonic (tokens operands) <;>
    simp [bytesOf, Bank.writeBytes]

/-- The second pass encodes an instruction line. -/
theorem add_of_some {mnemonic : Token} (labels : LabelTable) (hbehind : image.Behind isa before)
    (h : line.instruction? before = some mnemonic) :
    image.add isa labels line = image.addInstruction isa labels mnemonic line.operands := by
  obtain ⟨hbefore, hdata, hmnemonic⟩ := Line.instruction?_eq_some_iff.mp h
  have hne : mnemonic ≠ dataMnemonic := by simpa [Line.isData, hmnemonic] using hdata
  simp [Image.add, hmnemonic, hne, hbehind.inData_eq, hbefore]

/-- It loads a data line. -/
theorem add_of_isData (image : Image) (labels : LabelTable) (h : line.isData = true) :
    image.add isa labels line = image.addData line.operands := by
  have hmnemonic : line.mnemonic = some dataMnemonic := by simpa [Line.isData] using h
  simp [Image.add, hmnemonic]

/-- It does nothing for a line with a label only, and for an instruction behind data. -/
theorem add_of_none (labels : LabelTable) (hbehind : image.Behind isa before)
    (h : line.instruction? before = none) (hdata : line.isData = false) :
    image.add isa labels line = (image, none) := by
  unfold Line.instruction? at h
  cases hmnemonic : line.mnemonic with
  | none => simp [Image.add, hmnemonic]
  | some mnemonic =>
    have hne : mnemonic ≠ dataMnemonic := by simpa [Line.isData, hmnemonic] using hdata
    have hbefore : hasData before = true := by simpa [hdata, hmnemonic] using h
    simp [Image.add, hmnemonic, hne, hbehind.inData_eq, hbefore]

/-- What the second pass makes of a line whose mnemonic is known if it is an instruction. -/
theorem add_spec (labels : LabelTable) (hbehind : image.Behind isa before)
    (hknown : ∀ mnemonic, line.instruction? before = some mnemonic →
      ∃ size, isa.size? mnemonic = some size) :
    (image.add isa labels line).1.Behind isa (before ++ [line]) ∧
      (image.add isa labels line).1.instructions =
        image.instructions.writeBytes (UInt8.ofNat (extent isa before))
          (line.bytes isa labels before) ∧
      ((image.add isa labels line).2 = none ↔ line.Encodes isa labels before) := by
  obtain ⟨haddress, hmode⟩ := hbehind
  cases hinstruction : line.instruction? before with
  | some mnemonic =>
    obtain ⟨_, hdata, hmnemonic⟩ := Line.instruction?_eq_some_iff.mp hinstruction
    obtain ⟨size, hsize⟩ := hknown mnemonic hinstruction
    obtain ⟨hnext, hkept, hwritten, hfine⟩ :=
      addInstruction_spec image labels hsize line.operands
    rw [haddress] at hnext hwritten hfine
    rw [add_of_some labels ⟨haddress, hmode⟩ hinstruction]
    refine ⟨⟨?_, ?_⟩, ?_, ?_⟩
    · rw [hnext, extent_snoc_of_some hinstruction, Line.size_eq hmnemonic hsize]
    · rw [hkept, hmode]
      simp [hdata]
    · rw [hwritten, Line.bytes_of_some hinstruction]
    · rw [hfine, Line.encodes_iff_of_some hinstruction]
  | none =>
    rw [Line.bytes_of_none hinstruction, Line.encodes_iff_of_none hinstruction]
    cases hdata : line.isData with
    | true =>
      obtain ⟨hnext, hset, hkept, hfine⟩ := addData_spec image line.operands
      rw [add_of_isData image labels hdata]
      refine ⟨⟨?_, ?_⟩, hkept, ?_⟩
      · rw [hnext, haddress, extent_snoc_of_none hinstruction]
      · rw [hset]
        simp [hdata]
      · simp [hfine]
    | false =>
      rw [add_of_none labels ⟨haddress, hmode⟩ hinstruction hdata]
      refine ⟨⟨?_, ?_⟩, rfl, ?_⟩
      · rw [extent_snoc_of_none hinstruction]
        exact haddress
      · simpa [hdata] using hmode
      · simp

/-! ## All lines -/

/-- The instruction bytes of lines, one line behind the other. -/
def machineCode (isa : Isa) (labels : LabelTable) (before ls : List Line) : List UInt8 :=
  (withBefore before ls).flatMap fun entry => entry.2.bytes isa labels entry.1

theorem machineCode_append {ls' : List Line} :
    machineCode isa labels before (ls ++ ls') =
      machineCode isa labels before ls ++ machineCode isa labels (before ++ ls) ls' := by
  unfold machineCode
  rw [withBefore_append, List.flatMap_append]

theorem machineCode_cons :
    machineCode isa labels before (line :: ls) =
      line.bytes isa labels before ++ machineCode isa labels (before ++ [line]) ls := rfl

/-- An encoded line has as many bytes as its mnemonic says. -/
theorem Line.Encodes.extent_eq (h : line.Encodes isa labels before) :
    extent isa (before ++ [line]) = extent isa before + (line.bytes isa labels before).length := by
  cases hinstruction : line.instruction? before with
  | none =>
    rw [Line.bytes_of_none hinstruction, extent_snoc_of_none hinstruction]
    rfl
  | some mnemonic =>
    obtain ⟨code, hcode⟩ := h.instruction mnemonic hinstruction
    obtain ⟨name, op, rfl, hname, _⟩ := Isa.decode_of_encode hcode
    have hmnemonic := (Line.instruction?_eq_some_iff.mp hinstruction).2.2
    rw [extent_snoc_of_some hinstruction, Line.size_eq hmnemonic (Isa.size?_of_mem hname),
      Line.bytes_of_some hinstruction, hcode, bytesOf, Code.length_bytes]

theorem fill_cons {ls : List Line} :
    (image.fill isa labels (line :: ls)).1 =
        ((image.add isa labels line).1.fill isa labels ls).1 ∧
      ((image.fill isa labels (line :: ls)).2 = [] ↔
        (image.add isa labels line).2 = none ∧
          ((image.add isa labels line).1.fill isa labels ls).2 = []) := by
  rw [Image.fill]
  rcases image.add isa labels line with ⟨image', outcome⟩
  cases outcome <;> simp

theorem exists_size_of_known
    (hknown : ∀ line' ∈ instructionLines (before ++ [line] ++ ls), ∃ mnemonic size,
      line'.mnemonic = some mnemonic ∧ isa.size? mnemonic = some size) :
    ∀ mnemonic, line.instruction? before = some mnemonic →
      ∃ size, isa.size? mnemonic = some size := by
  intro mnemonic hinstruction
  have hmem : line ∈ instructionLines (before ++ [line] ++ ls) := by
    rw [instructionLines_append, instructionLines_snoc, hinstruction]
    simp
  obtain ⟨mnemonic', size, hmnemonic', hsize⟩ := hknown line hmem
  have hmnemonic := (Line.instruction?_eq_some_iff.mp hinstruction).2.2
  obtain rfl := Option.some.inj (hmnemonic.symm.trans hmnemonic')
  exact ⟨size, hsize⟩

/-- Nothing is wrong exactly if every line can be encoded behind the lines before it, and the counter
comes to the extent of all lines. -/
theorem fill_spec (labels : LabelTable) (hbehind : image.Behind isa before)
    (hknown : ∀ line ∈ instructionLines (before ++ ls), ∃ mnemonic size,
      line.mnemonic = some mnemonic ∧ isa.size? mnemonic = some size) :
    (image.fill isa labels ls).1.Behind isa (before ++ ls) ∧
      ((image.fill isa labels ls).2 = [] ↔
        ∀ entry ∈ withBefore before ls, entry.2.Encodes isa labels entry.1) := by
  induction ls generalizing before image with
  | nil => simpa [Image.fill, withBefore] using hbehind
  | cons line rest ih =>
    rw [List.append_cons] at hknown ⊢
    obtain ⟨hadded, _, hfine⟩ := add_spec labels hbehind (exists_size_of_known hknown)
    obtain ⟨hfilled, hrest⟩ := ih hadded hknown
    rw [fill_cons.1, fill_cons.2, hfine, hrest, withBefore, List.forall_mem_cons]
    exact ⟨hfilled, Iff.rfl⟩

/-- The run of bytes that lines leave, if the lines before them have left the run `bytes`. Each line
is encoded at the end of the run before it. -/
theorem fill_instructions {bytes : List UInt8}
    (hencodes : ∀ entry ∈ withBefore before ls, entry.2.Encodes isa labels entry.1)
    (hbehind : image.Behind isa before) (hbytes : bytes.length = extent isa before)
    (himage : image.instructions = Bank.zero.writeBytes 0 bytes) :
    (image.fill isa labels ls).1.instructions =
        Bank.zero.writeBytes 0 (bytes ++ machineCode isa labels before ls) ∧
      (bytes ++ machineCode isa labels before ls).length = extent isa (before ++ ls) := by
  -- over the lines to come; the run left so far is as long as the extent of the lines before
  induction ls generalizing before bytes image with
  | nil => simpa [Image.fill, machineCode, withBefore] using ⟨himage, hbytes⟩
  | cons line rest ih =>
    rw [withBefore, List.forall_mem_cons] at hencodes
    obtain ⟨hline, hrest⟩ := hencodes
    have hknown : ∀ mnemonic, line.instruction? before = some mnemonic →
        ∃ size, isa.size? mnemonic = some size := by
      intro mnemonic hinstruction
      obtain ⟨code, hcode⟩ := hline.instruction mnemonic hinstruction
      obtain ⟨name, op, rfl, hname, _⟩ := Isa.decode_of_encode hcode
      exact ⟨_, Isa.size?_of_mem hname⟩
    obtain ⟨hadded, hwritten, _⟩ := add_spec labels hbehind hknown
    rw [fill_cons.1, machineCode_cons, ← List.append_assoc,
      List.append_cons before line rest]
    refine ih hrest hadded ?_ ?_
    · rw [List.length_append, hbytes, hline.extent_eq]
    · rw [hwritten, himage, Bank.writeBytes_append, hbytes, UInt8.zero_add]

/-- The second pass over a whole text. -/
theorem fill_empty_spec (labels : LabelTable)
    (hknown : ∀ line ∈ instructionLines ls, ∃ mnemonic size,
      line.mnemonic = some mnemonic ∧ isa.size? mnemonic = some size) :
    (Image.fill isa labels {} ls).1.address = extent isa ls ∧
      ((Image.fill isa labels {} ls).2 = [] ↔
        ∀ entry ∈ withBefore [] ls, entry.2.Encodes isa labels entry.1) := by
  have hstart : ({} : Image).Behind isa [] := ⟨rfl, rfl⟩
  obtain ⟨hbehind, hfine⟩ := fill_spec labels hstart hknown
  exact ⟨hbehind.address_eq, hfine⟩

/-- The run of bytes that a whole text leaves in an empty memory. -/
theorem fill_empty
    (hencodes : ∀ entry ∈ withBefore [] ls, entry.2.Encodes isa labels entry.1) :
    (Image.fill isa labels {} ls).1.instructions =
        Bank.zero.writeBytes 0 (machineCode isa labels [] ls) ∧
      (machineCode isa labels [] ls).length = extent isa ls := by
  have hempty : ({} : Image).instructions = Bank.zero.writeBytes 0 [] := rfl
  have hrun := fill_instructions hencodes ⟨rfl, rfl⟩ rfl hempty
  rwa [List.nil_append, List.nil_append] at hrun

end Octet.Assembly
