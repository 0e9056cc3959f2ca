import Octet.Proofs.Placement.Recoding
import Octet.Proofs.Session.Listing

/-!
# Listings that are assembled again

The texts in the listing of a program are lines of a source text themselves. Each of them stands for
the code that it was decoded from (`Layout.lineAt_recodes`), so that they are assembled to the
instructions of the program, unless it has branches or jumps to where only labels can lead.

The main statement is `assemble_listing`.
-/

namespace Octet

open Assembly (Line Program Layout Assemblable Recodes Context instructionLines labelTable lines
  linesFrom start tokens directTargetLimit assemble laidOut)

/-- The listing of a text can be assembled again: there are no branches, and every jump goes to an
address that can be written as a number. -/
structure Relistable (isa : Isa) (ls : List Line) : Prop where
  no_branch : ∀ line ∈ instructionLines ls, ∀ name ∈ isa.branches, line.mnemonic ≠ some name.toList
  near_jump : ∀ line ∈ instructionLines ls, ∀ name ∈ isa.transfers,
    line.mnemonic = some name.toList → ∀ token ∈ tokens line.operands, ∀ target,
      Context.target { labels := labelTable isa ls } token = .ok target → target < directTargetLimit

variable {isa : Isa} {ls : List Line} {line : Line} {p : Program} {m : Machine isa} {k : Nat}

/-- What is shown at the start of an instruction line is a line with the same code. -/
theorem Assembly.Layout.lineAt_recodes (h : Layout isa ls p) (hls : Relistable isa ls)
    (hlabels : p.labels = labelTable isa ls) (hm : m.instructions = p.instructions)
    (hline : (instructionLines ls)[k]? = some line) :
    let shown := m.lineAt (UInt8.ofNat (start isa ls k))
    '\n' ∉ shown.text.toList ∧ ∀ number, ∃ line',
      Line.read? isa.commentMarks number shown.text.toList = some line' ∧
      line.Recodes isa { address := UInt8.ofNat (start isa ls k), labels := labelTable isa ls }
        line' := by
  intro shown
  obtain ⟨name, op, code, hmnemonic, _, hname, hcode, _⟩ := h.fetch_eq hline
  obtain ⟨hfirst, hsecond⟩ := h.read_code hline hmnemonic hcode
  rw [← hm] at hfirst hsecond
  rw [hlabels] at hcode
  have hmem := List.mem_of_getElem? hline
  obtain ⟨operands, hshows⟩ := Isa.exists_shows hcode
    (fun hbranch => hls.no_branch line hmem name hbranch hmnemonic)
    (fun htransfer => hls.near_jump line hmem name htransfer hmnemonic)
  have htext : shown.text = isa.text (isa.decode code.first
      (code.second (m.instructions.read (UInt8.ofNat (start isa ls k) + 1)))) :=
    congrArg isa.text (congrArg₂ isa.decode hfirst hsecond)
  rw [htext]
  refine ⟨hshows.notMem_text hname _, fun number => ?_⟩
  obtain ⟨line', hread, hlabel, hmnemonic', htokens⟩ := hshows.read? hname _ number
  refine ⟨line', hread, hlabel, hmnemonic'.trans hmnemonic.symm,
    ⟨name.toList, code, hmnemonic, hcode, fun ctx' hctx' => ?_⟩⟩
  rw [htokens]
  exact hshows.encode ctx' hctx'

/-- The texts of a listing are lines that stand for the instruction lines of the program. -/
theorem Assembly.Layout.recodes_listing (h : Layout isa ls p) (hls : Relistable isa ls)
    (hlabels : p.labels = labelTable isa ls) (hm : m.instructions = p.instructions) :
    Recodes isa ls (lines isa.commentMarks
      ("\n".intercalate ((m.listing p.length).map (·.text))).toList) := by
  have hall : ∀ raw ∈ (m.listing p.length).map (String.toList ∘ (·.text)), '\n' ∉ raw ∧
      ∀ number, (Line.read? isa.commentMarks number raw).isSome := by
    intro raw hraw
    obtain ⟨shown, hshown, rfl⟩ := List.mem_map.mp hraw
    obtain ⟨k, line, hline, rfl⟩ := h.exists_of_mem_listing hm hshown
    obtain ⟨hsingle, hread⟩ := h.lineAt_recodes hls hlabels hm hline
    refine ⟨hsingle, fun number => ?_⟩
    obtain ⟨line', hread', _⟩ := hread number
    exact Option.isSome_of_eq_some hread'
  have hcounts := fun raw hraw => (hall raw hraw).2
  rw [String.toList_intercalate, List.map_map, show "\n".toList = ['\n'] from rfl,
    Assembly.lines_intercalate fun raw hraw => (hall raw hraw).1]
  refine ⟨?_, fun k line hline => ?_⟩
  · rw [Assembly.length_linesFrom hcounts, List.length_map, h.length_listing hm]
  · obtain ⟨_, hread⟩ := h.lineAt_recodes hls hlabels hm hline
    obtain ⟨line', hread', hrecodes⟩ := hread (1 + k)
    refine ⟨line', ?_, hrecodes⟩
    rw [Assembly.getElem?_linesFrom hcounts, List.getElem?_map, h.getElem?_listing hm, hline]
    exact hread'

/-- **Listings can be assembled again.** Take the listing of a program that has just been loaded, and
leave out the columns with addresses and bytes. If the source has no branches, and its jumps go to
addresses below the limit for numbers, then the lines are a source text for the same instruction set
that is assembled to the same instructions and the same length, without any data and labels. -/
theorem assemble_listing {s loaded : Session} {source : String}
    (hload : s.load source = .ok (loaded, p))
    (h : Relistable s.config.isa (lines s.config.isa.commentMarks source.toList)) :
    assemble s.config.isa ("\n".intercalate (loaded.listing.map (·.text))) =
      .ok { p with data := .zero, labels := [] } := by
  obtain ⟨hassemble, rfl⟩ := Session.load_eq_ok.mp hload
  obtain ⟨hls, hp⟩ := Assembly.assemble_eq_ok_iff.mp hassemble
  have hinstructions : (s.install p).machine.instructions = p.instructions := rfl
  have hrecodes := (Assembly.layout_of_assemble hassemble).recodes_listing h
    (congrArg Program.labels hp) hinstructions
  refine Assembly.assemble_eq_ok_iff.mpr ⟨hrecodes.assemblable hls, ?_⟩
  conv_lhs => rw [hp]
  exact (hrecodes.laidOut_eq hls).symm

/-- A text with labels, with data, and with an operand of each kind that is shown in its own way. -/
def walk : String :=
  "start: LDX #0x03\nLDA ACC, $1,X\nSTA 16\nnext: JMP next\nBRK\nDATA 1, 2"

/-- The listing of `walk`, and what it is assembled to. -/
theorem assemble_listing_walk :
    ∃ loaded p, (Session.ofConfig { isa := .cdc6504 }).load walk = .ok (loaded, p) ∧
      loaded.listing.map (·.text) = ["LDX #3", "LDA $01,X", "STA $10", "JMP 6", "BRK"] ∧
      Relistable .cdc6504 (lines Isa.cdc6504.commentMarks walk.toList) ∧
      assemble .cdc6504 ("\n".intercalate (loaded.listing.map (·.text))) =
        .ok { p with data := .zero, labels := [] } := by
  have htarget : ∀ line ∈ instructionLines (lines Isa.cdc6504.commentMarks walk.toList),
      ∀ name ∈ Isa.cdc6504.transfers, line.mnemonic = some name.toList →
      ∀ token ∈ tokens line.operands, Context.target (Context.mk 0
        (labelTable .cdc6504 (lines Isa.cdc6504.commentMarks walk.toList))) token = .ok 6 := by
    decide
  have hlist : Relistable .cdc6504 (lines Isa.cdc6504.commentMarks walk.toList) := by
    refine ⟨by decide, fun line hline name hname hmnemonic token htoken target h => ?_⟩
    obtain rfl := Except.ok.inj ((htarget line hline name hname hmnemonic token htoken).symm.trans h)
    decide
  have hload : ∃ loaded p, (Session.ofConfig { isa := .cdc6504 }).load walk = .ok (loaded, p) ∧
      loaded.listing.map (·.text) = ["LDX #3", "LDA $01,X", "STA $10", "JMP 6", "BRK"] :=
    ⟨_, _, rfl, by decide +kernel⟩
  obtain ⟨loaded, p, hload, htexts⟩ := hload
  have hagain := assemble_listing hload hlist
  exact ⟨loaded, p, hload, htexts, hlist, hagain⟩

end Octet
