import Octet.Proofs.Placement.Payloads

/-!
# The data memory of a program

Every data line starts at address zero, so it replaces as much of what the lines before it have left
as it is long. The byte at an address comes from the last line that reaches there (`lastByte?`).

The main statement is `data_image`.
-/

namespace Octet.Assembly

variable {ls : List Line} {operands : List Char} {payloads : List (List UInt8)} {bytes : List UInt8}
  {index : Nat}

/-! ## Payloads over one another -/

/-- The byte at an index of the last payload that is long enough to have one there. -/
def lastByte? (payloads : List (List UInt8)) (index : Nat) : Option UInt8 :=
  (payloads.reverse.find? (index < ·.length)).bind (·[index]?)

theorem lastByte?_cons :
    lastByte? (bytes :: payloads) index = (lastByte? payloads index).or bytes[index]? := by
  unfold lastByte?
  rw [List.reverse_cons, List.find?_append]
  cases hlast : payloads.reverse.find? (index < ·.length) with
  | none =>
    by_cases hindex : index < bytes.length <;> simp [hindex]
  | some payload =>
    have hindex : index < payload.length := by simpa using List.find?_some hlast
    simp [hindex]

/-- The payload of each line. -/
def Payloads (ls : List Line) (payloads : List (List UInt8)) : Prop :=
  List.Forall₂ (fun line bytes => Payload line.operands bytes) ls payloads

theorem exists_payloads (h : ∀ line ∈ ls, Loads line.operands) : ∃ payloads, Payloads ls payloads := by
  induction ls with
  | nil => exact ⟨[], .nil⟩
  | cons line ls ih =>
    rw [List.forall_mem_cons] at h
    obtain ⟨bytes, hbytes⟩ := loads_iff_payload.mp h.1
    obtain ⟨payloads, hpayloads⟩ := ih h.2
    exact ⟨bytes :: payloads, .cons hbytes hpayloads⟩

/-- What is read behind lines that are loaded one after another. -/
theorem read_foldl_loadData (h : Payloads ls payloads) (bank : Bank) (a : UInt8) :
    (ls.foldl (fun bank line => (loadData bank line.operands).1) bank).read a =
      (lastByte? payloads a.toNat).getD (bank.read a) := by
  induction h generalizing bank with
  | nil => rfl
  | @cons line bytes ls payloads hpayload _ ih =>
    rw [List.foldl_cons, ih, hpayload.loadData, Bank.read_writeBytes_zero _ hpayload.length_le,
      lastByte?_cons]
    cases lastByte? payloads a.toNat <;> rfl

/-! ## Too much data -/

/-- A text of more than 255 characters, whatever stands behind it, and a list of more than 32 operands,
whatever they are. -/
inductive Oversized : List Char → Prop where
  | text {cs after : List Char} (hquote : quote ∉ cs) (hlength : 255 < cs.length) :
      Oversized (quote :: (cs ++ quote :: after))
  | list {operands : List Char} (hhead : operands.head? ≠ some quote)
      (hlength : 32 < (tokens operands).length) : Oversized operands

theorem Payload.not_oversized (h : Payload operands bytes) : ¬ Oversized operands := by
  intro hover
  cases h with
  | @text cs after hquote hafter hbytes hlength =>
    generalize hoperands : quote :: (cs ++ quote :: after) = operands at hover
    cases hover with
    | @text cs' after' hquote' hlength' =>
      have hcs : cs = cs' := by
        have htake := congrArg (List.takeWhile (· ≠ quote)) (List.cons.inj hoperands).2
        rwa [takeWhile_ne_quote hquote, takeWhile_ne_quote hquote'] at htake
      rw [hcs] at hlength
      omega
    | list hhead _ =>
      rw [← hoperands] at hhead
      exact hhead rfl
  | list hhead hvalues hlength =>
    cases hover with
    | text => exact hhead rfl
    | list _ hlength' =>
      rw [hvalues.length_eq] at hlength'
      exact absurd hlength (Nat.not_le_of_lt hlength')

/-! ## Programs -/

/-- **The data memory of a program.** If a text is assembled, each of its data lines has a payload: the
numbers of the characters of a text and a zero, or the values of a list in their order. Whatever the
number of lines, the byte at an address is the one that the last payload that is longer than the
address has there, and zero if none is. With a text of more than 255 characters or a list of more
than 32 values among its data lines, a text is not assembled. -/
theorem data_image (isa : Isa) (source : String) :
    let data := dataLines (lines isa.commentMarks source.toList)
    (∀ p, assemble isa source = .ok p →
        (∃ payloads, Payloads data payloads) ∧
          ∀ payloads, Payloads data payloads →
            ∀ a, p.data.read a = (lastByte? payloads a.toNat).getD 0) ∧
      ((∃ line ∈ data, Oversized line.operands) → ∀ p, assemble isa source ≠ .ok p) := by
  intro data
  refine ⟨?_, ?_⟩
  · intro p h
    obtain ⟨hassemblable, rfl⟩ := assemble_eq_ok_iff.mp h
    refine ⟨exists_payloads hassemblable.loads, ?_⟩
    intro payloads hpayloads a
    rw [laidOut, fill_data, read_foldl_loadData hpayloads]
    show (lastByte? payloads a.toNat).getD (Bank.zero.read a) = _
    rw [Bank.read_zero]
  · rintro ⟨line, hline, hover⟩ p h
    obtain ⟨hassemblable, -⟩ := assemble_eq_ok_iff.mp h
    obtain ⟨bytes, hbytes⟩ := loads_iff_payload.mp (hassemblable.loads line hline)
    exact hbytes.not_oversized hover

/-- A text and, over its first character, a list of one value. -/
def overlay : String :=
  "HALT\nDATA 'Hi!'\nlast: DATA 0x41"

/-- A list of 33 values. -/
def longList : String :=
  "DATA 1 1 1 1 1 1 1 1 1 1 1 1 1 1 1 1 1 1 1 1 1 1 1 1 1 1 1 1 1 1 1 1 1"

theorem payloads_overlay :
    Payloads (dataLines (lines Isa.cdc8512.commentMarks overlay.toList))
      [[0x48, 0x69, 0x21, 0], [0x41]] := by
  have htext : Payload "'Hi!'".toList [0x48, 0x69, 0x21, 0] :=
    @Payload.text ['H', 'i', '!'] [] (by decide) (by decide) (by simp) (by decide)
  have hlist : Payload "0x41".toList [0x41] :=
    .list (by decide) (.cons (hexByte_eq_ok_iff.mp rfl) .nil) (by decide)
  exact .cons htext (.cons hlist .nil)

theorem data_image_overlay :
    (∃ p, assemble .cdc8512 overlay = .ok p ∧ p.data.read 0 = 0x41 ∧ p.data.read 1 = 0x69 ∧
      p.data.read 9 = 0) ∧
      ∀ p, assemble .cdc8512 longList ≠ .ok p := by
  refine ⟨?_, ?_⟩
  · obtain ⟨p, hp⟩ : ∃ p, assemble .cdc8512 overlay = .ok p := ⟨_, by rfl⟩
    have hread := ((data_image .cdc8512 overlay).1 p hp).2 _ payloads_overlay
    exact ⟨p, hp, hread 0, hread 1, hread 9⟩
  · exact (data_image .cdc8512 longList).2
      ⟨_, List.mem_singleton.mpr rfl, .list (by decide) (by decide)⟩

end Octet.Assembly
