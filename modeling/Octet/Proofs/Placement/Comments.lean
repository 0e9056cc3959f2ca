import Octet.Proofs.Encoding.Operands
import Octet.Proofs.Placement.Alike
import Octet.Proofs.Placement.Loads
import Octet.Proofs.Reading.OpenQuotes

/-!
# Comments and the program

Whether a mark starts a comment is told by the quotes before it on the line. Where they are paired, a
comment appended to a line changes nothing. Where one is left open, the comment is read as more of
the line, and no such line can be assembled:

* `Loads.not_of_extends` — more text behind data is no data;
* `not_marked_of_readable` — the mark of the comment ends up in an operand that no instruction can be
  written with;
* `size?_mark` — or it starts a mnemonic that no vocabulary has.

Only a line that is passed over, behind data, may have its comment swallowed. `comment_neutral_iff`
puts these cases together.
-/

namespace Octet.Assembly

open Text (Blanks isBlank)

variable {isa : Isa} {before after : List Line} {line longer : Line} {operands : List Char}
  {token : Token}

/-! ## Data lines that are extended -/

/-- Data that can be loaded cannot be loaded with a mark behind them: it is neither a byte of a list
nor a blank behind a text. -/
theorem Loads.not_of_extends {longer : List Char} (h : Loads operands)
    (hextends : Extends operands longer) : ¬ Loads longer := by
  obtain ⟨gap, rest, hgap, hempty, rfl⟩ := hextends
  intro hlonger
  by_cases hquote : operands.head? = some quote
  · obtain ⟨quoted, rfl⟩ := List.head?_eq_some_iff.mp hquote
    obtain ⟨bytes, hbytes⟩ := h.textBytes
    obtain ⟨bytes', hbytes'⟩ := hlonger.textBytes
    obtain ⟨after, hafter, _⟩ := blanks_of_textBytes hbytes
    obtain ⟨after', hafter', hblanks⟩ := blanks_of_textBytes hbytes'
    have hdrop : (quoted ++ gap ++ ';' :: rest).dropWhile (· ≠ quote) =
        quote :: (after ++ gap ++ ';' :: rest) := by
      rw [List.append_assoc, List.dropWhile_append, hafter]
      simp
    obtain rfl := (List.cons.inj (hdrop.symm.trans hafter')).2
    exact absurd (hblanks ';' (by simp)) (by decide)
  · have hhead : (operands ++ gap ++ ';' :: rest).head? ≠ some quote := by
      cases operands with
      | nil =>
        rw [hempty.mpr rfl]
        exact fun hsome => absurd (Option.some.inj hsome) (by decide)
      | cons c cs => exact hquote
    obtain ⟨token, hmem, hmarked⟩ := exists_marked hgap hempty.mp rest
    obtain ⟨v, hv⟩ := hlonger.hexByte hhead hmem
    exact notMem_of_hexByte hv hmarked.mem

/-! ## Instructions that are extended -/

theorem size?_mark (isa : Isa) (word : Token) : isa.size? (';' :: word) = none := by
  have hnames : ∀ entry ∈ isa.mnemonics, ';' ∉ Text.upper entry.1.toList := by
    cases isa <;> decide
  have hnone : (isa.mnemonics.find? fun entry =>
      Text.sameLetters entry.1.toList (';' :: word)) = none := by
    rw [List.find?_eq_none]
    intro entry hentry hsame
    exact hnames entry hentry (mem_upper_of_sameLetters hsame List.mem_cons_self)
  unfold Isa.size? Vocabulary.formAnyCase?
  rw [hnone]
  rfl

theorem notMem_of_register? {r : Reg} (h : isa.layout.register? token = some r) : ';' ∉ token := by
  intro hmark
  have hnames : ∀ name ∈ isa.layout.names, ';' ∉ Text.upper name.toList := by
    cases isa <;> decide
  have haliases : ∀ entry ∈ isa.layout.aliases, ';' ∉ Text.upper entry.1.toList := by
    cases isa <;> decide
  have hindex : (isa.layout.names.findIdx? fun name => Text.sameLetters name.toList token) =
      none := by
    rw [List.findIdx?_eq_none_iff]
    intro name hname
    exact Bool.eq_false_iff.mpr fun hsame =>
      hnames name hname (mem_upper_of_sameLetters hsame hmark)
  have halias : (isa.layout.aliases.find? fun entry => Text.sameLetters entry.1.toList token) =
      none := by
    rw [List.find?_eq_none]
    intro entry hentry hsame
    exact haliases entry hentry (mem_upper_of_sameLetters hsame hmark)
  unfold RegisterLayout.register? at h
  rw [hindex, halias] at h
  cases h

/-- No operand that an instruction can be written with is marked. -/
theorem not_marked_of_readable {ctx : Context}
    (hlabels : ∀ name, (ctx.labels.address? name).isSome → ¬ Marked name)
    (h : isa.Readable ctx token) : ¬ Marked token := by
  cases h with
  | register hr => exact fun hmarked => notMem_of_register? hr hmarked.mem
  | value hv => exact not_marked_of_value hlabels hv
  | hashed hv =>
    rintro (hhead | ⟨⟨b, hb, hblank⟩, hmark⟩)
    · exact absurd (Option.some.inj hhead) (by decide)
    · refine not_marked_of_value hlabels hv (.inr ⟨⟨b, ?_, hblank⟩, by simpa using hmark⟩)
      refine (List.mem_cons.mp hb).resolve_left ?_
      rintro rfl
      exact absurd hblank (by decide)
  | hex ha =>
    intro hmarked
    exact notMem_of_hexByte ha (by simpa using hmarked.mem)

/-! ## Lines that are extended -/

theorem Line.Extended.isData_eq (h : line.Extended longer) : longer.isData = line.isData := by
  unfold Line.isData
  cases hmnemonic : line.mnemonic with
  | some mnemonic => rw [(h.mnemonic mnemonic hmnemonic).1]
  | none =>
    obtain ⟨word, hword⟩ := h.word hmnemonic
    rw [hword]
    rfl

/-- Behind data, a line that holds none is passed over, however long it is. -/
theorem Line.Extended.alike (h : line.Extended longer) (hbefore : hasData before = true)
    (hdata : line.isData = false) : line.Alike before longer where
  label := h.label
  isData := h.isData_eq
  instruction := by simp [Line.instruction?, hbefore]
  operands := by simp [Line.instruction?, hbefore]
  data := by simp [hdata]

/-- Any other line makes a text that cannot be assembled. -/
theorem Assemblable.not_of_extended (h : Assemblable isa (before ++ line :: after))
    (hextended : line.Extended longer)
    (hlabels : ∀ name ∈ labelNames (before ++ longer :: after), ¬ Marked name)
    (hread : ¬ (hasData before = true ∧ line.isData = false)) :
    ¬ Assemblable isa (before ++ longer :: after) := by
  intro hlonger
  have hencodes := h.line_encodes (before, line) (mem_withBefore.mpr ⟨before, after, rfl, rfl⟩)
  have hencodes' := hlonger.line_encodes (before, longer)
    (mem_withBefore.mpr ⟨before, after, rfl, rfl⟩)
  by_cases hdata : line.isData = true
  · have hmnemonic : line.mnemonic = some dataMnemonic := by simpa [Line.isData] using hdata
    have hextends := (hextended.mnemonic dataMnemonic hmnemonic).2
    have hloads : Loads longer.operands := hencodes'.data (hextended.isData_eq.trans hdata)
    exact (hencodes.data hdata).not_of_extends hextends hloads
  · have hnoData : line.isData = false := by simpa using hdata
    have hbefore : hasData before = false := by simpa using fun htrue => hread ⟨htrue, hnoData⟩
    have hinstruction : longer.instruction? before = longer.mnemonic := by
      simp [Line.instruction?, hbefore, hextended.isData_eq, hnoData]
    cases hmnemonic : line.mnemonic with
    | none =>
      -- the comment has become a mnemonic, which no vocabulary has
      obtain ⟨word, hword⟩ := hextended.word hmnemonic
      have hmem : longer ∈ instructionLines (before ++ longer :: after) := by
        rw [List.append_cons, instructionLines_append, instructionLines_snoc, hinstruction, hword]
        simp
      obtain ⟨mnemonic, size, hsome, hsize⟩ := hlonger.known longer hmem
      obtain rfl := Option.some.inj (hword.symm.trans hsome)
      rw [size?_mark] at hsize
      cases hsize
    | some mnemonic =>
      -- the comment has become a part of the operands, which no instruction has
      obtain ⟨hsame, gap, rest, hgap, hempty, hoperands⟩ := hextended.mnemonic mnemonic hmnemonic
      obtain ⟨code, hcode⟩ := hencodes'.instruction mnemonic (hinstruction.trans hsame)
      obtain ⟨name, op, rfl, _, hdenotes, _⟩ := Isa.decode_of_encode hcode
      obtain ⟨token, hmem, hmarked⟩ := exists_marked hgap hempty.mp rest
      rw [← hoperands] at hmem
      refine not_marked_of_readable ?_ (hdenotes.readable token hmem) hmarked
      intro name hname
      refine hlabels name ?_
      by_contra hnot
      have hnone : (labelTable isa (before ++ longer :: after)).address? name = none := by
        rw [LabelTable.address?_eq_none_iff, map_fst_labelTable, List.mem_reverse]
        exact hnot
      simp [hnone] at hname

/-! ## Texts with one more comment -/

theorem semicolon_mem_commentMarks (isa : Isa) : ';' ∈ isa.commentMarks := by
  cases isa <;> decide

/-- No label of a text looks like the mark of a comment. -/
theorem not_marked_of_mem_labelNames {cs : List Char} {name : Token}
    (h : name ∈ labelNames (lines isa.commentMarks cs)) : ¬ Marked name := by
  obtain ⟨line, hmem, hlabel⟩ := List.mem_filterMap.mp h
  obtain ⟨_, raw, _, hread⟩ := mem_linesFrom_iff.mp hmem
  exact not_marked_label (semicolon_mem_commentMarks isa) hread hlabel

variable {front text back : List Char}

theorem hasData_line {marks raw : List Char} {number : Nat}
    (h : Line.read? marks number raw = some line) (hfeed : '\n' ∉ raw) :
    hasData (lines marks raw) = line.isData := by
  have hsame : (Line.read? marks 1 raw).map Line.isData =
      (Line.read? marks number raw).map Line.isData := by
    unfold Line.read?
    simp only
    split <;> rfl
  rw [lines, splitLines_of_notMem hfeed, linesFrom_cons]
  rw [h] at hsame
  obtain ⟨first, hfirst, hdata⟩ := Option.map_eq_some_iff.mp hsame
  rw [hfirst]
  simpa [linesFrom, hasData] using hdata

/-- The lines of a text whose line `raw` has been given a comment. -/
theorem lines_of_comment (isa : Isa) {raw : List Char} (hraw : IsLine front raw back)
    (htext : '\n' ∉ text) :
    let marks := isa.commentMarks
    (endsQuoted marks raw = false →
      lines marks (front ++ (raw ++ ' ' :: ';' :: text) ++ back) =
        lines marks (front ++ raw ++ back)) ∧
    (endsQuoted marks raw = true → ∃ line longer after,
      lines marks (front ++ raw ++ back) = lines marks front ++ line :: after ∧
      lines marks (front ++ (raw ++ ' ' :: ';' :: text) ++ back) =
        lines marks front ++ longer :: after ∧
      line.Extended longer ∧ hasData (lines marks raw) = line.isData) := by
  intro marks
  have hmark : ';' ∈ marks := semicolon_mem_commentMarks isa
  have hspace : ' ' ∉ marks := by cases isa <;> decide
  have hreturn : '\r' ∉ marks := by cases isa <;> decide
  obtain ⟨number, ending, after, hending, hlines⟩ := hraw.exists_lines marks
  have hcommented : '\n' ∉ raw ++ ' ' :: ';' :: text := by
    have hsingle := hraw.single
    simp [hsingle, htext]
  have hblanks : ∀ c ∈ ending, c ∉ marks := by
    rcases hending with rfl | rfl
    · simp
    · simpa using hreturn
  rw [hlines raw hraw.single, hlines _ hcommented, List.append_assoc raw, List.cons_append,
    List.cons_append, read?_append_blanks hending.blanks hblanks]
  constructor
  · intro hclosed
    rw [read?_comment hmark hspace hclosed]
  · intro hopen
    obtain ⟨line, longer, hread, hlonger, hextended⟩ :=
      read?_of_endsQuoted hopen number (text ++ ending)
    rw [hread, hlonger]
    exact ⟨line, longer, after, by simp, by simp, hextended, hasData_line hread hraw.single⟩

/-- **What a comment does to a program.** A line of a text that is assembled is given a comment: a
blank, a semicolon and any text without a line feed. This does not change the program if the quotes
on the line, up to a comment that it may already have, are paired, or if the line stands behind data
and holds none, so that it is passed over. In all other cases the quote that is open swallows the
comment, and the text can no longer be assembled. -/
theorem comment_neutral_iff {isa : Isa} {front line back text : String} {p : Program}
    (hline : IsLine front.toList line.toList back.toList) (htext : '\n' ∉ text.toList)
    (h : assemble isa (front ++ line ++ back) = .ok p) :
    let commented := front ++ line ++ " ;" ++ text ++ back
    let unpaired := Odd ((beforeComment isa.commentMarks false line.toList).count quote)
    let passedOver := hasData (lines isa.commentMarks front.toList) = true ∧
      hasData (lines isa.commentMarks line.toList) = false
    (¬ unpaired ∨ passedOver → assemble isa commented = .ok p) ∧
      (unpaired ∧ ¬ passedOver → ∃ ds, assemble isa commented = .error ds) := by
  intro commented unpaired passedOver
  have hsource : (front ++ line ++ back).toList = front.toList ++ line.toList ++ back.toList := by
    simp
  have hcommented : commented.toList =
      front.toList ++ (line.toList ++ ' ' :: ';' :: text.toList) ++ back.toList := by
    simp [commented]
  have hquoted : endsQuoted isa.commentMarks line.toList = true ↔ unpaired := endsQuoted_iff
  obtain ⟨hclosed, hopen⟩ := lines_of_comment isa hline htext
  rw [← hsource, ← hcommented] at hclosed hopen
  constructor
  · intro hneutral
    refine (Alike.assemble_eq_ok_iff ?_).mpr h
    by_cases hunpaired : unpaired
    · obtain ⟨hbefore, hdata⟩ := hneutral.resolve_left (not_not_intro hunpaired)
      obtain ⟨read, longer, after, hlines, hlines', hextended, hread⟩ :=
        hopen (hquoted.mpr hunpaired)
      have halike := hextended.alike hbefore (hread.symm.trans hdata)
      rw [hlines, hlines', List.append_cons, List.append_cons _ longer]
      exact (Alike.snoc (.refl _) halike).append after
    · rw [hclosed (by simpa using mt hquoted.mp hunpaired)]
      exact .refl _
  · rintro ⟨hunpaired, hpassed⟩
    obtain ⟨read, longer, after, hlines, hlines', hextended, hread⟩ :=
      hopen (hquoted.mpr hunpaired)
    have hassemblable := (assemble_eq_ok_iff.mp h).1
    rw [hlines] at hassemblable
    have hlabels : ∀ name ∈ labelNames (lines isa.commentMarks front.toList ++ longer :: after),
        ¬ Marked name := by
      rw [← hlines']
      exact fun name hname => not_marked_of_mem_labelNames hname
    have hnot : ¬ Assemblable isa (lines isa.commentMarks commented.toList) := by
      rw [hlines']
      refine hassemblable.not_of_extended hextended hlabels ?_
      rw [← hread]
      exact hpassed
    cases hresult : assemble isa commented with
    | error ds => exact ⟨ds, rfl⟩
    | ok p' => exact absurd (assemble_eq_ok_iff.mp hresult).1 hnot

/-- A source text with a quoted mark, and with an unpaired quote behind its data. -/
def quotes : String :=
  "SET X0, ';'\nDATA 'a'\nit's over\n"

theorem assemble_quotes : ∃ p, assemble .cdc8512 quotes = .ok p := ⟨_, by rfl⟩

/-- Comments behind both of them do not count, but one behind a single open quote does. -/
theorem comment_neutral_iff_quotes :
    (∃ p, assemble .cdc8512 quotes = .ok p ∧
      assemble .cdc8512 "SET X0, ';' ; mark\nDATA 'a'\nit's over\n" = .ok p ∧
      assemble .cdc8512 "SET X0, ';'\nDATA 'a'\nit's over ; now\n" = .ok p) ∧
    ∃ ds, assemble .cdc6504 "it's: BRK ; now" = .error ds := by
  obtain ⟨p, hp⟩ := assemble_quotes
  have hnow : '\n' ∉ " now".toList := by decide
  refine ⟨⟨p, hp, ?first, ?last⟩, ?label⟩
  case first =>
    have hline : IsLine "".toList "SET X0, ';'".toList "\nDATA 'a'\nit's over\n".toList :=
      ⟨.inl rfl, by decide, .inr (.inl ⟨_, rfl⟩)⟩
    have hmark : '\n' ∉ " mark".toList := by decide
    have hpaired : ¬ Odd ((beforeComment Isa.cdc8512.commentMarks false
        "SET X0, ';'".toList).count quote) := by decide
    exact (comment_neutral_iff hline hmark hp).1 (.inl hpaired)
  case last =>
    have hline : IsLine "SET X0, ';'\nDATA 'a'\n".toList "it's over".toList "\n".toList :=
      ⟨.inr ⟨"SET X0, ';'\nDATA 'a'".toList, rfl⟩, by decide, .inr (.inl ⟨_, rfl⟩)⟩
    exact (comment_neutral_iff hline hnow hp).1 (.inr ⟨rfl, rfl⟩)
  case label =>
    have hline : IsLine "".toList "it's: BRK".toList "".toList :=
      ⟨.inl rfl, by decide, .inl rfl⟩
    obtain ⟨p, hp⟩ : ∃ p, assemble .cdc6504 ("" ++ "it's: BRK" ++ "") = .ok p := ⟨_, by rfl⟩
    have hunpaired : Odd ((beforeComment Isa.cdc6504.commentMarks false
        "it's: BRK".toList).count quote) := by decide
    exact (comment_neutral_iff hline hnow hp).2 ⟨hunpaired, by decide⟩

/-- Three quotes are a character, but they leave a quote open that swallows a comment. -/
theorem comment_behind_quote_refused :
    (∃ p, assemble .cdc8512 "SET X0, '''" = .ok p) ∧
      assemble .cdc8512 "SET X0, ''' ; quote" =
        .error [⟨1, .invalidOperand (.malformedCharacter "''' ; quote".toList)⟩] := by
  exact ⟨⟨_, by rfl⟩, by rfl⟩

end Octet.Assembly
