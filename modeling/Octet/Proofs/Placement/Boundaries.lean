import Octet.Proofs.Encoding.Transfers
import Octet.Proofs.Machine.Boundaries
import Octet.Proofs.Placement.Assemble

/-!
# The instructions of a program

What stands at the start of an instruction line is what the line denotes (`Layout.fetch_eq`), and what
stands behind the program are halting instructions of one byte (`Layout.fetch_behind`). So the
starts of lines and the addresses behind the program are closed under control flow, if jumps and
branches go to labels: a label is the start of a line, or the end of the program.

The main statement is `Layout.closed`. The end of a program that fills the memory is address zero,
where its first line starts.
-/

namespace Octet.Assembly

/-- The addresses where an instruction line starts, and those behind the program. -/
def IsBoundary (isa : Isa) (ls : List Line) (p : Program) (a : UInt8) : Prop :=
  (∃ k line, (instructionLines ls)[k]? = some line ∧ a.toNat = start isa ls k) ∨
    p.length ≤ a.toNat

/-- Every operand of a jump or branch is a label of the text. -/
def TransfersToLabels (isa : Isa) (ls : List Line) : Prop :=
  ∀ line ∈ instructionLines ls, ∀ name ∈ isa.transfers, line.mnemonic = some name.toList →
    ∀ token ∈ tokens line.operands, token ∈ labelNames ls

instance (isa : Isa) (ls : List Line) : Decidable (TransfersToLabels isa ls) :=
  inferInstanceAs (Decidable (∀ line ∈ instructionLines ls, ∀ name ∈ isa.transfers,
    line.mnemonic = some name.toList → ∀ token ∈ tokens line.operands, token ∈ labelNames ls))

variable {isa : Isa} {ls : List Line} {line : Line} {p : Program} {k : Nat}

theorem getElem?_of_take_drop {α : Type} {l l' : List α} {n i : Nat}
    (h : (l.drop n).take l'.length = l') (hi : i < l'.length) : l[n + i]? = l'[i]? := by
  rw [← h, List.getElem?_take_of_lt hi, List.getElem?_drop]

namespace Layout

theorem start_add_size_le (h : Layout isa ls p) (hline : (instructionLines ls)[k]? = some line) :
    start isa ls k + line.size isa ≤ p.length := by
  rw [← start_succ hline, h.length_eq]
  exact start_le_extent (k + 1)

theorem size_pos (h : Layout isa ls p) (hline : (instructionLines ls)[k]? = some line) :
    0 < line.size isa := by
  obtain ⟨_, code, _, _, hsize, _⟩ := h.code k line hline
  rw [hsize]
  cases code <;> exact Nat.succ_pos _

theorem toNat_start (h : Layout isa ls p) (hline : (instructionLines ls)[k]? = some line) :
    (UInt8.ofNat (start isa ls k)).toNat = start isa ls k := by
  have hroom := h.start_add_size_le hline
  have hpos := h.size_pos hline
  have hfits := h.length_le
  apply UInt8.toNat_ofNat_of_lt'
  show start isa ls k < 256
  omega

/-- The bytes at the start of an instruction line are those of its code. Of a code of one byte, the
byte behind it may be any. -/
theorem read_code (h : Layout isa ls p) (hline : (instructionLines ls)[k]? = some line)
    {mnemonic : Token} {code : Code} (hmnemonic : line.mnemonic = some mnemonic)
    (hcode : isa.encode { address := UInt8.ofNat (start isa ls k), labels := p.labels } mnemonic
      (tokens line.operands) = .ok code) :
    let address := UInt8.ofNat (start isa ls k)
    p.instructions.read address = code.first ∧
      p.instructions.read (address + 1) = code.second (p.instructions.read (address + 1)) := by
  intro address
  obtain ⟨hnext, hbytes⟩ := h.code_at hline hmnemonic hcode
  have hread : ∀ i (a : UInt8), i < code.bytes.length → a.toNat = start isa ls k + i →
      some (p.instructions.read a) = code.bytes[i]? := by
    intro i a hi ha
    rw [Bank.read_eq_getElem, ha, getElem?_of_take_drop hbytes hi]
  refine ⟨?_, ?_⟩
  · have hstart := hread 0 address (by cases code <;> exact Nat.succ_pos _) (h.toNat_start hline)
    cases code <;> simpa [Code.bytes, Code.first] using hstart
  · cases code with
    | one opcode => rfl
    | two opcode operand =>
      have hroom := h.start_add_size_le hline
      have hfits := h.length_le
      rw [← start_succ hline, hnext] at hroom
      have hlt : start isa ls k + 1 < 256 := by
        simp only [Code.bytes, List.length_cons, List.length_nil] at hroom
        omega
      have hsecond := hread 1 (address + 1) Nat.one_lt_two (by
        rw [UInt8.toNat_add, h.toNat_start hline, show (1 : UInt8).toNat = 1 from rfl]
        omega)
      simpa [Code.bytes, Code.second] using hsecond

/-- At the start of an instruction line stands the code of the line, and it is decoded to an
instruction of its name and size that does what the line denotes. -/
theorem fetch_eq (h : Layout isa ls p) (hline : (instructionLines ls)[k]? = some line) :
    let address := UInt8.ofNat (start isa ls k)
    let ctx : Context := { address, labels := p.labels }
    ∃ name op, ∃ code : Code, line.mnemonic = some name.toList ∧
      line.size isa = code.size.toNat ∧ (name, code.size) ∈ isa.mnemonics ∧
      isa.encode ctx name.toList (tokens line.operands) = .ok code ∧
      isa.Denotes ctx name (tokens line.operands) op ∧
      isa.fetch p.instructions address =
        { raw := code.first, next := code.second (p.instructions.read (address + 1)), name
          size := code.size, op } := by
  intro address ctx
  obtain ⟨mnemonic, code, hmnemonic, hcode, hsize, _⟩ := h.code k line hline
  obtain ⟨name, op, rfl, hname, hdenotes, hdecodes⟩ := Isa.decode_of_encode hcode
  obtain ⟨hfirst, hsecond⟩ := h.read_code hline hmnemonic hcode
  refine ⟨name, op, code, hmnemonic, hsize.trans code.length_bytes, hname, hcode, hdenotes, ?_⟩
  unfold Isa.fetch Isa.decode
  rw [hsecond, hfirst, hdecodes.decode]
  cases code <;> rfl

/-- What stands at the start of an instruction line, without its code. -/
theorem fetch (h : Layout isa ls p) (hline : (instructionLines ls)[k]? = some line) :
    ∃ name op, ∃ code : Code, line.mnemonic = some name.toList ∧
      line.size isa = code.size.toNat ∧ (name, code.size) ∈ isa.mnemonics ∧
      isa.Denotes { address := UInt8.ofNat (start isa ls k), labels := p.labels } name
        (tokens line.operands) op ∧
      (isa.fetch p.instructions (UInt8.ofNat (start isa ls k))).op = op ∧
      (isa.fetch p.instructions (UInt8.ofNat (start isa ls k))).size = code.size := by
  obtain ⟨name, op, code, hmnemonic, hsize, hname, _, hdenotes, hfetch⟩ := h.fetch_eq hline
  refine ⟨name, op, code, hmnemonic, hsize, hname, hdenotes, ?_, ?_⟩ <;> rw [hfetch]

/-- A zero is a halting instruction of one byte. -/
theorem decode_zero (isa : Isa) (next : UInt8) :
    (isa.decode 0 next).op = .halt ∧ (isa.decode 0 next).size = 1 := by
  cases isa <;> exact ⟨rfl, rfl⟩

/-- Behind the program stand halting instructions. -/
theorem fetch_behind (h : Layout isa ls p) {a : UInt8} (ha : p.length ≤ a.toNat) :
    (isa.fetch p.instructions a).op = .halt ∧ (isa.fetch p.instructions a).size = 1 := by
  unfold Isa.fetch
  rw [h.zero_behind a ha]
  exact decode_zero isa _

/-- Where the first instructions end there is a boundary. -/
theorem isBoundary_start (h : Layout isa ls p) (hk : k ≤ (instructionLines ls).length) :
    IsBoundary isa ls p (UInt8.ofNat (start isa ls k)) := by
  have hfits := h.length_le
  rcases Nat.lt_or_eq_of_le hk with hlt | rfl
  · have hline := List.getElem?_eq_getElem hlt
    exact .inl ⟨k, _, hline, h.toNat_start hline⟩
  · rw [start_length, ← h.length_eq]
    rcases Nat.lt_or_eq_of_le hfits with hlt | hfull
    · exact .inr (Nat.le_of_eq (UInt8.toNat_ofNat_of_lt' hlt).symm)
    · -- the memory is full, so there is a first line, and the end is where it starts
      have hne : instructionLines ls ≠ [] := by
        intro hnil
        have hextent := h.length_eq
        simp [extent, hnil, hfull] at hextent
      have hpos := List.length_pos_of_ne_nil hne
      refine .inl ⟨0, _, List.getElem?_eq_getElem hpos, ?_⟩
      rw [hfull]
      simp [start]

/-- A label is a boundary. -/
theorem isBoundary_label (h : Layout isa ls p) {name : Token} {a : UInt8}
    (ha : p.labels.address? name = some a) : IsBoundary isa ls p a := by
  obtain ⟨before, line, after, rfl, _, rfl⟩ := (h.label name a).mp ha
  rw [← start_length_instructionLines before (line :: after)]
  apply h.isBoundary_start
  rw [instructionLines_append, List.length_append]
  exact Nat.le_add_right _ _

theorem exists_address? (h : Layout isa ls p) {name : Token} (hname : name ∈ labelNames ls) :
    ∃ a, p.labels.address? name = some a := by
  obtain ⟨line, hmem, hlabel⟩ := List.mem_filterMap.mp hname
  obtain ⟨before, after, rfl⟩ := List.append_of_mem hmem
  exact ⟨_, (h.label name _).mpr ⟨before, line, after, rfl, hlabel, rfl⟩⟩

/-- **Boundaries are closed.** If jumps and branches go to labels, control flow that starts at the
beginning of a line or behind the program stays at such addresses, and meets known instructions
only. -/
theorem closed (h : Layout isa ls p) (hlabels : TransfersToLabels isa ls) :
    Closed isa p.instructions (IsBoundary isa ls p) := by
  refine ⟨?_, ?_, ?_⟩
  -- the instruction at a boundary is known
  · rintro a (⟨k, line, hline, ha⟩ | ha)
    · obtain ⟨name, op, code, _, _, _, hdenotes, hop, _⟩ := h.fetch hline
      rw [← ha, UInt8.ofNat_toNat] at hop
      rw [hop]
      exact hdenotes.ne_unknown
    · rw [(h.fetch_behind ha).1]
      exact nofun
  -- behind it is the next boundary
  · rintro a (⟨k, line, hline, ha⟩ | ha)
    · obtain ⟨name, op, code, _, hsize, _, _, _, hfetch⟩ := h.fetch hline
      rw [← ha, UInt8.ofNat_toNat] at hfetch
      have hnext := h.isBoundary_start (k := k + 1) (List.getElem?_eq_some_iff.mp hline).1
      rw [start_succ hline, hsize, ← ha, UInt8.ofNat_add, UInt8.ofNat_toNat,
        UInt8.ofNat_toNat] at hnext
      rwa [hfetch]
    · rw [(h.fetch_behind ha).2]
      by_cases hlast : a.toNat = 255
      · -- behind the last byte comes the first one
        have hfirst := h.isBoundary_start (k := 0) (Nat.zero_le _)
        have hwrap : a + 1 = UInt8.ofNat (start isa ls 0) := by
          rw [UInt8.toNat_inj.mp (show a.toNat = (255 : UInt8).toNat from hlast)]
          simp [start]
        rwa [hwrap]
      · refine .inr ?_
        have hlt := a.toNat_lt
        rw [UInt8.toNat_add, show (1 : UInt8).toNat = 1 from rfl]
        omega
  -- its target, if it has one, is a label
  · rintro a (⟨k, line, hline, ha⟩ | ha) target htarget
    · obtain ⟨name, op, code, hmnemonic, _, hname, hdenotes, hop, hfetch⟩ := h.fetch hline
      rw [← ha, UInt8.ofNat_toNat] at hop hfetch hdenotes
      rw [hop, hfetch] at htarget
      obtain ⟨htransfer, token, htokens, ht⟩ := hdenotes.operand_of_target? hname htarget
      have hmem := hlabels line (List.mem_of_getElem? hline) name htransfer hmnemonic token
        (by rw [htokens]; exact List.mem_singleton_self token)
      obtain ⟨b, hb⟩ := h.exists_address? hmem
      have hlabel : Context.target { address := a, labels := p.labels } token = .ok b := by
        simp [Context.target, hb]
      obtain rfl := Except.ok.inj (hlabel.symm.trans ht)
      exact h.isBoundary_label hb
    · rw [(h.fetch_behind ha).1] at htarget
      cases htarget

end Layout

end Octet.Assembly
