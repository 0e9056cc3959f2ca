import Octet.Proofs.Session.Listing
import Octet.Proofs.Session.Run

/-!
# A step prints its line of the listing

A line of a listing and an entry of a trace are printed by themselves. The line joins its bytes with spaces
and fills them up to a width; the entry puts a space in front of each byte, and more behind a single one.
For one byte or two this is the same text (`Entry.render_eq`), and no instruction has other numbers of bytes.

Both take the bytes from the same place: an instruction is fetched where it is listed, and the step that
executes it records what was fetched, also where it halts or faults (`Machine.step_snd`).

The main statement is `Session.step_renders_line`.
-/

namespace Octet

/-! ## Two printers -/

namespace Text

theorem length_hexUpper (b : UInt8) : (hexUpper b).length = 2 := by
  rw [← String.length_toList, toList_hexUpper]
  rfl

/-- A single byte is as wide as two if three spaces follow it. -/
theorem padEnd_one (b : UInt8) :
    padEnd 5 (" ".intercalate ([b].map hexUpper)) = hexUpper b ++ "   " := by
  have hjoin : " ".intercalate ([b].map hexUpper) = hexUpper b := by simp
  rw [hjoin, padEnd, length_hexUpper]
  rfl

theorem padEnd_two (a b : UInt8) :
    padEnd 5 (" ".intercalate ([a, b].map hexUpper)) = hexUpper a ++ " " ++ hexUpper b := by
  have hjoin : " ".intercalate ([a, b].map hexUpper) = hexUpper a ++ " " ++ hexUpper b := by simp
  have hlength : (hexUpper a ++ " " ++ hexUpper b).length = 5 := by
    rw [String.length_append, String.length_append, length_hexUpper, length_hexUpper]
    rfl
  rw [hjoin, padEnd, hlength]
  exact String.append_empty

end Text

/-- An entry with the address, the bytes and the text of a line is printed as the line, if these are one
byte or two. -/
theorem Entry.render_eq {entry : Entry} {line : ListingLine} (haddress : entry.pc = line.address)
    (hbytes : entry.bytes = line.bytes) (htext : entry.text = line.text)
    (hlength : line.bytes.length = 1 ∨ line.bytes.length = 2) : entry.render = line.render := by
  obtain ⟨address, bytes, text⟩ := line
  have hcolon : ∀ rest : String, ":" ++ (" " ++ rest) = ": " ++ rest := fun _ => String.append_assoc.symm
  rw [Entry.render, ListingLine.render, haddress, hbytes, htext]
  rcases hlength with hone | htwo
  · obtain ⟨b, rfl⟩ := List.length_eq_one_iff.mp hone
    rw [Text.padEnd_one]
    simp [String.append_assoc, hcolon]
  · obtain ⟨a, b, rfl⟩ := List.length_eq_two.mp htwo
    rw [Text.padEnd_two]
    simp [String.append_assoc, hcolon]

/-! ## Steps -/

namespace Machine

variable {isa : Isa} {m : Machine isa}

/-- What a step records, whatever comes of it. -/
theorem step_snd (h : m.state.isRunning = true) :
    m.step.2 = some
      { pc := m.pc, bytes := m.fetch.bytes, text := isa.text m.fetch
        registers := m.step.1.snapshot } := by
  unfold step
  rw [if_pos h]
  rfl

/-- A step is printed as the line for the address of the program counter before it. -/
theorem step_renders (h : m.state.isRunning = true) :
    ∃ entry, m.step.2 = some entry ∧ entry.render = (m.lineAt m.pc).render := by
  have hfetch : m.fetch = m.instructionAt m.pc := rfl
  refine ⟨_, step_snd h, ?_⟩
  rw [hfetch]
  exact Entry.render_eq rfl rfl rfl (m.length_bytes_lineAt m.pc)

end Machine

/-- **A step prints its line of the listing.** Let a session be running, with its program counter at the
address of a line of its listing. Whatever the instruction memory holds, and whether the step goes on, halts
or faults: it gives an entry, and the entry is printed as that line. -/
theorem Session.step_renders_line {s : Session} {line : ListingLine} (hrunning : s.isRunning = true)
    (hline : line ∈ s.listing) (haddress : line.address = s.machine.pc) :
    ∃ entry, s.step.2 = some entry ∧ entry.render = line.render := by
  obtain ⟨entry, hentry, hrender⟩ := Machine.step_renders (m := s.machine) hrunning
  refine ⟨entry, s.step_snd.trans hentry, ?_⟩
  rw [hrender, ← haddress, ← Machine.eq_lineAt_of_mem hline]

/-- A jump leads to the third line, and the instruction there faults. -/
theorem Session.step_renders_line_faulted :
    let s := (Session.ofConfig {}).acts [.writeInstruction 0 0xA3, .writeInstruction 1 3,
      .writeInstruction 3 0x82, .writeInstruction 4 0xA3, .step]
    let line : ListingLine := { address := 3, bytes := [0x82, 0xA3], text := "SET A2, 163" }
    s.isRunning = true ∧ line ∈ s.listing ∧ line.address = s.machine.pc ∧
      s.step.1.machine.state = .errored (.addressOutOfRange 3 2 163) ∧
      ∃ entry, s.step.2 = some entry ∧ entry.render = line.render := by
  intro s line
  have hrunning : s.isRunning = true := by decide +kernel
  have hline : line ∈ s.listing := by decide +kernel
  have haddress : line.address = s.machine.pc := by decide +kernel
  have hstate : s.step.1.machine.state = .errored (.addressOutOfRange 3 2 163) := by decide +kernel
  exact ⟨hrunning, hline, haddress, hstate, step_renders_line hrunning hline haddress⟩

end Octet
