import Octet.Proofs.Machine.Log
import Octet.Proofs.Placement.Boundaries
import Octet.Proofs.Reading.DataLine
import Octet.Proofs.Session.Action

/-!
# Programs that print a text

A program of one instruction that halts and one data line prints the text of the line. The text goes
from the source into the data memory as the numbers of its characters (`assemble_printing`), and from
there into the output up to the first zero (`Bank.text_of_toList`, `run_printer`), so that a text
without the character of number zero comes out as it was written.
-/

namespace Octet

/-! ## From memory to output -/

theorem ofUInt8_ofNat {c : Char} (h : c.toNat < 256) :
    Char.ofUInt8 (UInt8.ofNat c.toNat) = c := by
  apply Char.toNat_inj.mp
  show (UInt8.ofNat c.toNat).toNat = c.toNat
  exact UInt8.toNat_ofNat_of_lt' h

theorem map_ofUInt8_numbers {cs : List Char} (h : ∀ c ∈ cs, c.toNat < 256) :
    (Text.numbers cs).map Char.ofUInt8 = cs := by
  unfold Text.numbers
  rw [List.map_map]
  exact (List.map_congr_left fun c hc => ofUInt8_ofNat (h c hc)).trans (List.map_id cs)

/-- The text of a bank ends at its first zero. -/
theorem Bank.text_of_toList {bank : Bank} {bytes rest : List UInt8}
    (h : bank.toList = bytes ++ 0 :: rest) (hbytes : ∀ b ∈ bytes, b ≠ 0) :
    bank.text 0 = String.ofList (bytes.map Char.ofUInt8) := by
  have hnonzero : ∀ b ∈ bytes, (b != 0) = true := fun b hb => bne_iff_ne.mpr (hbytes b hb)
  unfold text
  rw [h, show (0 : UInt8).toNat = 0 from rfl, List.drop_zero, List.takeWhile_append_of_pos hnonzero]
  simp

namespace Machine

variable {isa : Isa} {m : Machine isa}

theorem step_of_halt (h : m.state.isRunning = true) (hop : m.fetch.op = .halt) :
    m.step.1.state = .halted ∧ m.step.1.output = m.output ++ m.data.text 0 ++ "\n" := by
  obtain ⟨trace, hstep⟩ := step_eq h
  have hexecute : m.execute m.fetch = (m, .halt) := by simp [execute, hop]
  rw [hstep, hexecute]
  exact ⟨rfl, rfl⟩

end Machine

namespace Assembly

variable {isa : Isa} {s ending : String}

/-! ## From the source to memory -/

/-- The mnemonic of the instruction that halts. -/
def haltMnemonic : Isa → String
  | .cdc8512 => "HALT"
  | .cdc6504 => "BRK"

/-- A source text that prints `s`: a line that halts, and a line with the text. -/
def printing (isa : Isa) (s : String) : String :=
  haltMnemonic isa ++ "\nDATA '" ++ s ++ "'"

theorem toList_printing : (printing isa s).toList =
    (haltMnemonic isa).toList ++ '\n' :: (dataMnemonic ++ ' ' :: quotedText s.toList) := by
  simp [printing, quotedText, dataMnemonic, quote]

/-- Its first line. -/
def haltLine (isa : Isa) : Line where
  number := 1
  label := none
  mnemonic := some (haltMnemonic isa).toList
  operands := []

/-- Its second line. -/
def textLine (cs : List Char) : Line where
  number := 2
  label := none
  mnemonic := some dataMnemonic
  operands := quotedText cs

/-- The lines are these two, whether or not the last one ends with a line feed. -/
theorem lines_printing (hending : ending = "" ∨ ending = "\n")
    (hs : ∀ c ∈ s.toList, c ≠ '\'' ∧ c ≠ '\n') :
    lines isa.commentMarks (printing isa s ++ ending).toList =
      [haltLine isa, textLine s.toList] := by
  have hquote : quote ∉ s.toList := fun hmem => (hs quote hmem).1 rfl
  have hfeed : '\n' ∉ dataMnemonic ++ ' ' :: quotedText s.toList := by
    have hmem : '\n' ∉ s.toList := fun hmem => (hs '\n' hmem).2 rfl
    simp [dataMnemonic, quotedText, quote, hmem]
  have hfirst : Line.read? isa.commentMarks 1 (haltMnemonic isa).toList = some (haltLine isa) := by
    cases isa <;> rfl
  have hsingle : splitLines (haltMnemonic isa).toList = [(haltMnemonic isa).toList] := by
    cases isa <;> rfl
  rw [lines, String.toList_append, toList_printing, List.append_assoc, List.cons_append,
    splitLines_append, hsingle]
  rcases hending with rfl | rfl
  · rw [show "".toList = [] from rfl, List.append_nil, splitLines_of_notMem hfeed,
      List.singleton_append, linesFrom_cons, linesFrom_cons, hfirst, read?_data_text isa _ hquote]
    rfl
  · rw [show "\n".toList = ['\n'] from rfl, splitLines_append, splitLines_of_notMem hfeed,
      List.singleton_append, List.singleton_append, linesFrom_cons, linesFrom_cons, hfirst,
      read?_data_text isa _ hquote]
    rfl

/-- What is made of a source text that prints. -/
def printer (cs : List Char) : Program where
  instructions := Bank.zero.writeBytes 0 [0]
  data := writeText .zero cs
  length := 1
  labels := []

theorem assemble_printing (hending : ending = "" ∨ ending = "\n") (hlength : s.length ≤ 255)
    (hs : ∀ c ∈ s.toList, c.toNat ≤ 255 ∧ c ≠ '\'' ∧ c ≠ '\n') :
    assemble isa (printing isa s ++ ending) = .ok (printer s.toList) := by
  have hlines : lines isa.commentMarks (printing isa s ++ ending).toList =
      [haltLine isa, textLine s.toList] := lines_printing hending fun c hc => (hs c hc).2
  -- the first pass does not look at the text, and finds no label
  have hlabels : collectLabels isa [haltLine isa, textLine s.toList] = .ok [] := by
    cases isa <;> rfl
  have hhalt : Image.add isa [] {} (haltLine isa) =
      ({ instructions := Bank.zero.writeBytes 0 [0], address := 1 }, none) := by
    cases isa <;> rfl
  have htext : Image.add isa [] { instructions := Bank.zero.writeBytes 0 [0], address := 1 }
      (textLine s.toList) =
        ({ instructions := Bank.zero.writeBytes 0 [0], data := writeText .zero s.toList, address := 1,
           inData := true }, none) := by
    have hload := loadData_text .zero (fun hmem => (hs quote hmem).2.1 rfl)
      (fun c hc => Nat.lt_succ_of_le (hs c hc).1) (Nat.lt_succ_of_le hlength)
    rw [add_of_isData _ _ rfl, Image.addData, textLine, hload]
  unfold assemble
  simp only [hlines, hlabels, emit, Image.fill, hhalt, htext]
  rfl

end Assembly

namespace Session

open Assembly (printing printer writeText toList_writeText assemble_printing)

/-- The first instruction of a program that prints halts. -/
theorem run_printer (s : Session) {cs : List Char} (hlength : cs.length < 256)
    (hcs : ∀ c ∈ cs, 1 ≤ c.toNat ∧ c.toNat ≤ 255) {n : Nat} (hn : 0 < n) :
    ((s.install (printer cs)).run n).1.machine.output = String.ofList cs ++ "\n" ∧
      ((s.install (printer cs)).run n).1.machine.state = .halted := by
  obtain ⟨n, rfl⟩ := Nat.exists_eq_add_one_of_ne_zero (Nat.ne_of_gt hn)
  have hrunning : (s.install (printer cs)).isRunning = true := rfl
  have hop : (s.install (printer cs)).machine.fetch.op = .halt := by
    have hread : (printer cs).instructions.read 0 = 0 := Bank.read_write_self _ _ _
    show (s.config.isa.decode ((printer cs).instructions.read 0) _).op = .halt
    rw [hread]
    exact (Assembly.Layout.decode_zero s.config.isa _).1
  have htext : (writeText .zero cs).text 0 = String.ofList cs := by
    have hlist := toList_writeText hlength
    rw [show 256 - cs.length = (255 - cs.length) + 1 by omega, List.replicate_succ] at hlist
    rw [Bank.text_of_toList hlist, map_ofUInt8_numbers fun c hc => Nat.lt_succ_of_le (hcs c hc).2]
    intro b hb
    obtain ⟨c, hc, rfl⟩ := List.mem_map.mp hb
    intro hzero
    have hnumber := congrArg UInt8.toNat hzero
    rw [UInt8.toNat_ofNat_of_lt' (Nat.lt_succ_of_le (hcs c hc).2)] at hnumber
    exact absurd hnumber (Nat.ne_of_gt (hcs c hc).1)
  obtain ⟨hstate, houtput⟩ := Machine.step_of_halt hrunning hop
  have hstopped : (s.install (printer cs)).step.1.isRunning = false := by
    rw [step_fst]
    simp [isRunning, hstate, RunState.isRunning]
  rw [run_succ hrunning, run_of_not_running hstopped, step_fst]
  refine ⟨?_, hstate⟩
  rw [houtput]
  show "" ++ (writeText .zero cs).text 0 ++ "\n" = _
  rw [htext, String.empty_append]

/-- **From a data line to the output.** A line that halts and a data line with a text of at most 255
characters, none of them a quote, a line feed or the character of number zero, and all below 256,
make a program that has the numbers of the characters in its data memory and a zero behind them, and
prints the text and a line feed. This is so whatever the characters are otherwise: marks of comments,
separators and blanks, also at the ends. -/
theorem prints_text (s : Session) {text ending : String} (hending : ending = "" ∨ ending = "\n")
    (hlength : text.length ≤ 255)
    (hchars : ∀ c ∈ text.toList, 1 ≤ c.toNat ∧ c.toNat ≤ 255 ∧ c ≠ '\'' ∧ c ≠ '\n') :
    ∃ loaded p, s.load (printing s.config.isa text ++ ending) = .ok (loaded, p) ∧
      loaded.machine.data.toList.map UInt8.toNat =
        text.toList.map Char.toNat ++ List.replicate (256 - text.length) 0 ∧
      ∀ n, 0 < n → (loaded.run n).1.machine.output = text ++ "\n" ∧
        (loaded.run n).1.machine.state = .halted := by
  have hassemble : Assembly.assemble s.config.isa (printing s.config.isa text ++ ending) =
      .ok (printer text.toList) := assemble_printing hending hlength fun c hc => (hchars c hc).2
  have hroom : text.toList.length < 256 := Nat.lt_succ_of_le hlength
  have hnumbers : (Text.numbers text.toList).map UInt8.toNat = text.toList.map Char.toNat := by
    unfold Text.numbers
    rw [List.map_map]
    refine List.map_congr_left fun c hc => ?_
    exact UInt8.toNat_ofNat_of_lt' (Nat.lt_succ_of_le (hchars c hc).2.1)
  refine ⟨s.install (printer text.toList), printer text.toList, load_eq_ok.mpr ⟨hassemble, rfl⟩,
    ?_, fun n hn => ?_⟩
  · show (writeText .zero text.toList).toList.map UInt8.toNat = _
    rw [toList_writeText hroom, List.map_append, hnumbers, List.map_replicate]
    rfl
  · have hrun := run_printer s hroom (fun c hc => ⟨(hchars c hc).1, (hchars c hc).2.1⟩) hn
    rwa [String.ofList_toList] at hrun

/-- A text with marks of comments, separators, and blanks at its ends, on a CDC8512. -/
theorem prints_text_marks :
    let s := ofConfig {}
    ∃ loaded p, s.load "HALT\nDATA ' a;b#c, d:  e '" = .ok (loaded, p) ∧
      (loaded.run 1).1.machine.output = " a;b#c, d:  e \n" := by
  intro s
  have hlength : " a;b#c, d:  e ".length ≤ 255 := by decide
  have hall : " a;b#c, d:  e ".toList.all
      (fun c => 1 ≤ c.toNat ∧ c.toNat ≤ 255 ∧ c ≠ '\'' ∧ c ≠ '\n') = true := by decide
  have hchars : ∀ c ∈ " a;b#c, d:  e ".toList,
      1 ≤ c.toNat ∧ c.toNat ≤ 255 ∧ c ≠ '\'' ∧ c ≠ '\n' := by
    intro c hc
    exact of_decide_eq_true (List.all_eq_true.mp hall c hc)
  obtain ⟨loaded, p, hload, -, hrun⟩ := prints_text s (.inl rfl) hlength hchars
  exact ⟨loaded, p, hload, (hrun 1 Nat.one_pos).1⟩

end Session

end Octet
