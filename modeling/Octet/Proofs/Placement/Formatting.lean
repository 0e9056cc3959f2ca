import Mathlib.Logic.Relation
import Octet.Proofs.Placement.Alike
import Octet.Proofs.Placement.Loads
import Octet.Proofs.Reading.Separators

/-!
# The layout of a text

What a text comes to does not depend on how it is laid out: on blank lines and comments on lines of
their own, on indentation, on the case of mnemonics, on what separates operands, and on how lines
end. `Reformats` are the single changes of this kind.

* `Alike.append_linesFrom` — lines come to the same under other numbers, so lines that do not count
  can be inserted and taken out.
* `IsLine.assemble_congr` — a line can be replaced by one that is read in the same way.
* `assemble_separators_iff` — operands can be kept apart by other separators. Only on a data line that
  starts with a quote would there be a difference, but text behind a quoted text is refused.

The main statement is `layout_neutral`, for any number of changes, made or undone.
-/

namespace Octet.Assembly

open Text (Blanks Solid isBlank trim upper sameLetters)

variable {isa : Isa} {marks cs cs' front line line' back lead word word' rest comment : List Char}
  {first second sep sep' gap indent indent' : List Char} {label : Option Token} {number : Nat}
  {read read' : Line} {before before' after ls : List Line} {source source' : String} {p : Program}

/-! ## Changes to a line -/

/-- What is known of the characters that start comments. -/
def Marks (marks : List Char) : Prop :=
  ∀ c ∈ marks, c.isAlpha = false ∧ c ≠ ',' ∧ isBlank c = false

theorem commentMarks_spec (isa : Isa) : Marks isa.commentMarks := by
  unfold Marks
  cases isa <;> simp [Isa.commentMarks, isBlank, Text.blankRanges]

theorem Marks.notMem_of_blanks (hmarks : Marks marks) (hgap : Blanks gap) : ∀ c ∈ gap, c ∉ marks := by
  intro c hc hmark
  cases (hmarks c hmark).2.2.symm.trans (hgap c hc)

theorem labelOf?_eq_none_of_upper (h : upper word = upper word') (hlabel : labelOf? word = none) :
    labelOf? word' = none := by
  have hcolon : ':'.isAlpha = false := by decide
  have hlast : word.getLast? ≠ some ':' := by simpa [labelOf?] using hlabel
  refine if_neg fun hlast' => hlast ?_
  have hmap : word.getLast?.map Char.toUpper = some ':' := by
    rw [← List.getLast?_map, ← upper, h, upper, List.getLast?_map, hlast']
    rfl
  obtain ⟨c, hc, hupper⟩ := Option.map_eq_some_iff.mp hmap
  rw [hc, (Text.toUpper_eq_iff hcolon).mp hupper]

/-- A mnemonic in another case of letters leaves the other parts of a line what they are. -/
theorem HasParts.of_case (hmarks : Marks marks)
    (h : HasParts marks label lead word rest comment) (hcase : upper word = upper word') :
    HasParts marks label lead word' rest comment where
  introduced := by
    cases h.introduced with
    | word hindent hword => exact .word hindent (labelOf?_eq_none_of_upper hcase hword)
    | label hindent hname hgap hne => exact .label hindent hname hgap hne
  solid := h.solid.of_upper hcase
  nonempty := by
    intro hnil
    rw [hnil] at hcase
    exact h.nonempty (List.map_eq_nil_iff.mp hcase)
  separated := h.separated
  before_comment := by
    have hbefore := h.before_comment
    simp only [List.append_assoc, beforeComment_append_eq_iff,
      foldl_quotedAfter_of_upper hcase] at hbefore ⊢
    exact ⟨hbefore.1, beforeComment_of_upper (fun c hc => (hmarks c hc).1) hcase hbefore.2.1, hbefore.2.2⟩

/-- So do other separators between operands. -/
theorem HasParts.of_separators (hmarks : Marks marks)
    (h : HasParts marks label lead word (first ++ sep ++ second) comment)
    (hfirst : ¬ Blanks first) (hsep : Separators sep) (hsep' : Separators sep') :
    HasParts marks label lead word (first ++ sep' ++ second) comment where
  introduced := h.introduced
  solid := h.solid
  nonempty := h.nonempty
  separated := by
    have hne : first ≠ [] := by
      rintro rfl
      exact hfirst .nil
    have hblank := h.separated
    rw [List.append_assoc, List.head?_append_of_ne_nil _ hne] at hblank ⊢
    exact hblank
  before_comment := by
    have hbefore := h.before_comment
    simp only [← List.append_assoc] at hbefore ⊢
    exact beforeComment_separators (fun c hc => (hmarks c hc).2) hsep hsep' hbefore

theorem read?_blanks_append (hmarks : Marks marks) (hgap : Blanks gap) (line : List Char) :
    Line.read? marks number (gap ++ line) = Line.read? marks number line := by
  have hquote : quote ∉ gap := (Separators.of_blanks hgap).notMem_quote
  unfold Line.read?
  rw [beforeComment_append (beforeComment_of_notMem (hmarks.notMem_of_blanks hgap)), foldl_quotedAfter_of_notMem hquote,
    Text.trim_blanks_append _ hgap]

/-! ## Lines that are read in the same way -/

theorem assemble_iff_of_lines_eq (hcs : source.toList = cs) (hcs' : source'.toList = cs')
    (h : lines isa.commentMarks cs' = lines isa.commentMarks cs) :
    assemble isa source = .ok p ↔ assemble isa source' = .ok p := by
  rw [← hcs, ← hcs'] at h
  unfold assemble
  rw [h]

/-- A line can be replaced by one that is read in the same way. -/
theorem IsLine.lines_congr (hmarks : Marks marks) (h : IsLine front line back)
    (hline' : '\n' ∉ line')
    (hread : ∀ number, Line.read? marks number line' = Line.read? marks number line) :
    lines marks (front ++ line' ++ back) = lines marks (front ++ line ++ back) := by
  obtain ⟨number, ending, after, hending, hlines⟩ := h.exists_lines marks
  have hnotMark := hmarks.notMem_of_blanks hending.blanks
  rw [hlines line' hline', hlines line h.single, read?_append_blanks hending.blanks hnotMark,
    read?_append_blanks hending.blanks hnotMark, hread]

theorem IsLine.lines_indent (hmarks : Marks marks) (h : IsLine front (indent ++ line) back)
    (hindent : Blanks indent) (hindent' : Blanks indent') (hsingle : '\n' ∉ indent') :
    lines marks (front ++ (indent' ++ line) ++ back) =
      lines marks (front ++ (indent ++ line) ++ back) := by
  refine h.lines_congr hmarks ?_ fun number => ?_
  · have hline := h.single
    simp only [List.mem_append, not_or] at hline ⊢
    exact ⟨hsingle, hline.2⟩
  · rw [read?_blanks_append hmarks hindent, read?_blanks_append hmarks hindent']

theorem IsLine.lines_case (hmarks : Marks marks)
    (h : IsLine front (lead ++ word ++ rest ++ comment) back)
    (hparts : HasParts marks label lead word rest comment) (hcase : sameLetters word word' = true) :
    lines marks (front ++ (lead ++ word' ++ rest ++ comment) ++ back) =
      lines marks (front ++ (lead ++ word ++ rest ++ comment) ++ back) := by
  have hupper : upper word = upper word' := by simpa [sameLetters] using hcase
  have hparts' := hparts.of_case hmarks hupper
  refine h.lines_congr hmarks ?_ fun number => ?_
  · have hline := h.single
    have hword : '\n' ∉ word' := fun hmem => absurd (hparts'.solid _ hmem) (by decide)
    simp only [List.mem_append, not_or] at hline ⊢
    exact ⟨⟨⟨hline.1.1.1, hword⟩, hline.1.2⟩, hline.2⟩
  · rw [hparts'.read?, hparts.read?, hupper]

theorem IsLine.lines_separators (hmarks : Marks marks)
    (h : IsLine front (lead ++ word ++ (first ++ sep ++ second) ++ comment) back)
    (hparts : HasParts marks label lead word (first ++ sep ++ second) comment)
    (hfirst : ¬ Blanks first) (hsep : Separators sep) (hsep' : Separators sep')
    (hsingle : '\n' ∉ sep') :
    ∃ before read read' after, read.operands = trim (first ++ sep ++ second) ∧
      read' = { read with operands := trim (first ++ sep' ++ second) } ∧
      lines marks (front ++ (lead ++ word ++ (first ++ sep ++ second) ++ comment) ++ back) =
        before ++ read :: after ∧
      lines marks (front ++ (lead ++ word ++ (first ++ sep' ++ second) ++ comment) ++ back) =
        before ++ read' :: after := by
  have hparts' := hparts.of_separators hmarks hfirst hsep hsep'
  obtain ⟨number, ending, after, hending, hlines⟩ := h.exists_lines marks
  have hnotMark := hmarks.notMem_of_blanks hending.blanks
  have hline' : '\n' ∉ lead ++ word ++ (first ++ sep' ++ second) ++ comment := by
    have hline := h.single
    simp only [List.mem_append, not_or] at hline ⊢
    exact ⟨⟨hline.1.1, ⟨hline.1.2.1.1, hsingle⟩, hline.1.2.2⟩, hline.2⟩
  refine ⟨lines marks front, ⟨number, label, some (upper word), trim (first ++ sep ++ second)⟩, _,
    after, rfl, rfl, ?_, ?_⟩
  · rw [hlines _ h.single, read?_append_blanks hending.blanks hnotMark, hparts.read?,
      List.append_assoc]
    rfl
  · rw [hlines _ hline', read?_append_blanks hending.blanks hnotMark, hparts'.read?,
      List.append_assoc]
    rfl

/-- A text has a last line. -/
theorem exists_last_line (cs : List Char) :
    ∃ front line, cs = front ++ line ∧ (front = [] ∨ ∃ text, front = text ++ ['\n']) ∧
      '\n' ∉ line := by
  induction cs using List.reverseRecOn with
  | nil => exact ⟨[], [], rfl, .inl rfl, by simp⟩
  | append_singleton cs c ih =>
    by_cases hc : c = '\n'
    · exact ⟨cs ++ ['\n'], [], by simp [hc], .inr ⟨cs, rfl⟩, by simp⟩
    · obtain ⟨front, line, rfl, hstarts, hsingle⟩ := ih
      exact ⟨front, line ++ [c], by simp, hstarts, by simp [hsingle, Ne.symm hc]⟩

theorem lines_ending (hmarks : Marks marks) (front back : List Char) :
    lines marks (front ++ '\r' :: '\n' :: back) = lines marks (front ++ '\n' :: back) := by
  have hreturn : Blanks ['\r'] := .singleton (by decide)
  obtain ⟨front, line, rfl, hstarts, hsingle⟩ := exists_last_line front
  have hline : IsLine front line ('\n' :: back) := ⟨hstarts, hsingle, .inr (.inl ⟨back, rfl⟩)⟩
  have hlines : lines marks (front ++ (line ++ ['\r']) ++ '\n' :: back) = _ :=
    hline.lines_congr hmarks (by simp [hsingle]) fun _ =>
      read?_append_blanks hreturn (hmarks.notMem_of_blanks hreturn)
  simpa using hlines

/-! ## Lines under other numbers -/

theorem read?_number (marks raw : List Char) (number number' : Nat) :
    Line.read? marks number' raw =
      (Line.read? marks number raw).map ({ · with number := number' }) := by
  unfold Line.read?
  simp only
  split <;> rfl

theorem Alike.append_linesFrom (h : Alike before before') (marks : List Char)
    (raws : List (List Char)) (number number' : Nat) :
    Alike (before ++ linesFrom marks number raws) (before' ++ linesFrom marks number' raws) := by
  induction raws generalizing before before' number number' with
  | nil => simpa [linesFrom] using h
  | cons raw rest ih =>
    rw [linesFrom_cons, linesFrom_cons, read?_number marks raw number number']
    cases Line.read? marks number raw with
    | none => exact ih h _ _
    | some line =>
      have hline : line.Alike before { line with number := number' } :=
        ⟨rfl, rfl, rfl, fun _ _ => rfl, fun _ _ => rfl⟩
      have hrest := ih (h.snoc hline) (number + 1) (number' + 1)
      simpa using hrest

theorem read?_of_idle (hidle : Blanks (beforeComment marks false line)) (number : Nat) :
    Line.read? marks number line = none := by
  simp [Line.read?, Text.trim_eq_nil_iff.mpr hidle]

/-- Behind a line that does not count, the lines have other numbers. -/
theorem IsLine.alike_of_idle (h : IsLine front line ('\n' :: back))
    (hidle : Blanks (beforeComment marks false line)) :
    Alike (lines marks (front ++ back)) (lines marks (front ++ line ++ '\n' :: back)) := by
  obtain ⟨raws, hraws, _⟩ := h.exists_front
  unfold lines
  rw [List.append_assoc, hraws, hraws, splitLines_append, splitLines_of_notMem h.single,
    linesFrom_append, linesFrom_append, List.singleton_append, linesFrom_cons, read?_of_idle hidle]
  exact (Alike.refl _).append_linesFrom marks _ _ _

theorem lines_append_idle (text : List Char) (hsingle : '\n' ∉ line)
    (hidle : Blanks (beforeComment marks false line)) :
    lines marks (text ++ '\n' :: line) = lines marks text := by
  unfold lines
  rw [splitLines_append, splitLines_of_notMem hsingle, linesFrom_append, linesFrom_cons,
    read?_of_idle hidle]
  exact List.append_nil _

/-! ## Separators -/

/-- Behind a quoted text there is no second operand. -/
theorem Loads.not_of_separators (heven : Even (first.count quote)) (hfirst : ¬ Blanks first)
    (hsecond : ¬ Blanks second) (hsep : Separators sep) (hne : sep ≠ [])
    (hquote : (trim first).head? = some quote) : ¬ Loads (trim (first ++ sep ++ second)) := by
  obtain ⟨mid, _, _, htrim⟩ := exists_trim_separators hfirst hsecond hsep hne
  obtain ⟨quoted, hfirst⟩ := List.head?_eq_some_iff.mp hquote
  -- the quotes of the first operand are paired, so the text ends in it
  have hodd : Odd (quoted.count quote) := by
    rw [← count_quote_trim, hfirst, List.count_cons_self, Nat.even_add_one,
      Nat.not_even_iff_odd] at heven
    exact heven
  have hclosed : quote ∈ quoted := List.count_pos_iff.mp (Nat.pos_of_ne_zero fun hzero => by
    rw [hzero] at hodd
    exact absurd hodd (by decide))
  intro hloads
  rw [htrim, hfirst, List.append_assoc, List.cons_append] at hloads
  obtain ⟨bytes, hbytes⟩ := hloads.textBytes
  obtain ⟨after, hafter, hblanks⟩ := blanks_of_textBytes hbytes
  cases hdrop : quoted.dropWhile (· ≠ quote) with
  | nil => exact absurd (List.dropWhile_eq_nil_iff.mp hdrop quote hclosed) (by simp)
  | cons c more =>
    rw [List.dropWhile_append, hdrop] at hafter
    obtain rfl : more ++ (mid ++ trim second) = after := (List.cons.inj hafter).2
    have htail : Blanks (trim second) := fun c hc => hblanks c (by simp [hc])
    have htrimmed : Text.Trimmed ([] ++ trim second) := Text.trimmed_trim second
    exact hsecond (Text.trim_eq_nil_iff.mp (htrimmed.eq_nil_of_blanks htail))

theorem head?_trim_separators (hfirst : ¬ Blanks first) (hsecond : ¬ Blanks second)
    (hsep : Separators sep) (hne : sep ≠ []) :
    (trim (first ++ sep ++ second)).head? = (trim first).head? := by
  obtain ⟨mid, _, _, htrim⟩ := exists_trim_separators hfirst hsecond hsep hne
  rw [htrim, List.append_assoc, List.head?_append_of_ne_nil _ (mt Text.trim_eq_nil_iff.mp hfirst)]

/-- Both passes do the same with a line that has other separators, unless it is data in a quoted text. -/
theorem Line.alike_of_separators (heven : Even (first.count quote)) (hfirst : ¬ Blanks first)
    (hsecond : ¬ Blanks second) (hsep : Separators sep) (hne : sep ≠ []) (hsep' : Separators sep')
    (hne' : sep' ≠ []) (hoperands : read.operands = trim (first ++ sep ++ second))
    (hunquoted : read.isData = true → (trim first).head? ≠ some quote) :
    read.Alike before { read with operands := trim (first ++ sep' ++ second) } := by
  have htokens : tokens (trim (first ++ sep' ++ second)) = tokens read.operands := by
    rw [hoperands, tokens_trim_separators heven hfirst hsecond hsep hne,
      tokens_trim_separators heven hfirst hsecond hsep' hne']
  refine ⟨rfl, rfl, rfl, fun _ _ => htokens, fun hdata bank => ?_⟩
  have hhead := hunquoted hdata
  rw [loadData_of_head?_ne, loadData_of_head?_ne, htokens]
  · rwa [hoperands, head?_trim_separators hfirst hsecond hsep hne]
  · rwa [head?_trim_separators hfirst hsecond hsep' hne']

theorem loads_of_assemble (h : assemble isa source = .ok p)
    (hlines : lines isa.commentMarks source.toList = before ++ read :: after)
    (hdata : read.isData = true) : Loads read.operands := by
  refine (assemble_eq_ok_iff.mp h).1.loads read (List.mem_filter.mpr ⟨?_, hdata⟩)
  rw [hlines]
  exact List.mem_append_right _ List.mem_cons_self

/-- Other separators leave a program what it is. -/
theorem assemble_separators_iff (heven : Even (first.count quote)) (hfirst : ¬ Blanks first)
    (hsecond : ¬ Blanks second) (hsep : Separators sep) (hne : sep ≠ []) (hsep' : Separators sep')
    (hne' : sep' ≠ []) (hoperands : read.operands = trim (first ++ sep ++ second))
    (hread' : read' = { read with operands := trim (first ++ sep' ++ second) })
    (hlines : lines isa.commentMarks source.toList = before ++ read :: after)
    (hlines' : lines isa.commentMarks source'.toList = before ++ read' :: after) :
    assemble isa source = .ok p ↔ assemble isa source' = .ok p := by
  by_cases hquoted : read.isData = true → (trim first).head? ≠ some quote
  · have hline : read.Alike before read' := hread' ▸
      Line.alike_of_separators heven hfirst hsecond hsep hne hsep' hne' hoperands hquoted
    refine (Alike.assemble_eq_ok_iff ?_).symm
    rw [hlines, hlines', List.append_cons, List.append_cons _ read']
    exact (Alike.snoc (.refl _) hline).append after
  · -- the quoted text would have to take the second operand in, whatever separates the two
    rw [Classical.not_imp, not_not] at hquoted
    obtain ⟨hdata, hquote⟩ := hquoted
    have hdata' : read'.isData = true := by rw [hread']; exact hdata
    constructor
    · intro h
      have hloads := loads_of_assemble h hlines hdata
      rw [hoperands] at hloads
      exact absurd hloads (Loads.not_of_separators heven hfirst hsecond hsep hne hquote)
    · intro h
      have hloads := loads_of_assemble h hlines' hdata'
      rw [hread'] at hloads
      exact absurd hloads (Loads.not_of_separators heven hfirst hsecond hsep' hne' hquote)

/-! ## Changes to a text -/

/-- A single change to the layout of a text. Each of them can be undone by a change of this kind or is
made by `insert` or `append`. -/
inductive Reformats (isa : Isa) : List Char → List Char → Prop where
  /-- A line that is blank up to its comment is put in front of a line. -/
  | insert {front line back : List Char} (hline : IsLine front line ('\n' :: back))
      (hidle : Blanks (beforeComment isa.commentMarks false line)) :
      Reformats isa (front ++ back) (front ++ line ++ '\n' :: back)
  /-- Such a line is put behind all others. -/
  | append {text line : List Char} (hsingle : '\n' ∉ line)
      (hidle : Blanks (beforeComment isa.commentMarks false line)) :
      Reformats isa text (text ++ '\n' :: line)
  /-- The blanks in front of a line are replaced by others. -/
  | indent {front indent indent' line back : List Char}
      (hline : IsLine front (indent ++ line) back) (hindent : Blanks indent)
      (hindent' : Blanks indent') (hsingle : '\n' ∉ indent') :
      Reformats isa (front ++ (indent ++ line) ++ back) (front ++ (indent' ++ line) ++ back)
  /-- A mnemonic is written in another case of letters. -/
  | case {front lead word word' rest comment back : List Char} {label : Option Token}
      (hline : IsLine front (lead ++ word ++ rest ++ comment) back)
      (hparts : HasParts isa.commentMarks label lead word rest comment)
      (hcase : sameLetters word word' = true) :
      Reformats isa (front ++ (lead ++ word ++ rest ++ comment) ++ back)
        (front ++ (lead ++ word' ++ rest ++ comment) ++ back)
  /-- Commas and blanks between two operands, outside of quotes, are replaced by others. -/
  | separators {front lead word first sep sep' second comment back : List Char}
      {label : Option Token}
      (hline : IsLine front (lead ++ word ++ (first ++ sep ++ second) ++ comment) back)
      (hparts : HasParts isa.commentMarks label lead word (first ++ sep ++ second) comment)
      (heven : Even (first.count quote)) (hfirst : ¬ Blanks first) (hsecond : ¬ Blanks second)
      (hsep : Separators sep) (hne : sep ≠ []) (hsep' : Separators sep') (hne' : sep' ≠ [])
      (hsingle : '\n' ∉ sep') :
      Reformats isa (front ++ (lead ++ word ++ (first ++ sep ++ second) ++ comment) ++ back)
        (front ++ (lead ++ word ++ (first ++ sep' ++ second) ++ comment) ++ back)
  /-- A line is ended by a carriage return and a line feed in place of a line feed. -/
  | ending {front back : List Char} :
      Reformats isa (front ++ '\n' :: back) (front ++ '\r' :: '\n' :: back)

/-- No change to the layout changes what a text comes to. -/
theorem Reformats.assemble_eq_ok_iff (h : Reformats isa source.toList source'.toList) :
    assemble isa source = .ok p ↔ assemble isa source' = .ok p := by
  generalize hcs : source.toList = cs at h
  generalize hcs' : source'.toList = cs' at h
  cases h with
  | insert hline hidle =>
    have halike := hline.alike_of_idle hidle
    rw [← hcs, ← hcs'] at halike
    exact halike.assemble_eq_ok_iff.symm
  | append hsingle hidle =>
    exact assemble_iff_of_lines_eq hcs hcs' (lines_append_idle cs hsingle hidle)
  | indent hline hindent hindent' hsingle =>
    exact assemble_iff_of_lines_eq hcs hcs'
      (hline.lines_indent (commentMarks_spec isa) hindent hindent' hsingle)
  | case hline hparts hcase =>
    exact assemble_iff_of_lines_eq hcs hcs' (hline.lines_case (commentMarks_spec isa) hparts hcase)
  | separators hline hparts heven hfirst hsecond hsep hne hsep' hne' hsingle =>
    obtain ⟨before, read, read', after, hoperands, hread', hlines, hlines'⟩ :=
      hline.lines_separators (commentMarks_spec isa) hparts hfirst hsep hsep' hsingle
    rw [← hcs] at hlines
    rw [← hcs'] at hlines'
    exact assemble_separators_iff heven hfirst hsecond hsep hne hsep' hne' hoperands hread' hlines
      hlines'
  | ending =>
    exact assemble_iff_of_lines_eq hcs hcs' (lines_ending (commentMarks_spec isa) _ _)

/-- **Layout does not matter.** A text is assembled to the same program before and after any number of
changes to its layout, each of them made or undone: blank lines and lines with a comment only,
indentation, the case of mnemonics, separators between operands, and ends of lines. -/
theorem layout_neutral
    (h : Relation.EqvGen (fun text text' : String => Reformats isa text.toList text'.toList)
      source source') : assemble isa source = .ok p ↔ assemble isa source' = .ok p := by
  induction h with
  | rel text text' h => exact h.assemble_eq_ok_iff
  | refl text => exact Iff.rfl
  | symm text text' _ ih => exact ih.symm
  | trans text text' text'' _ _ ih ih' => exact ih.trans ih'

/-- A table behind a line that reads from it, laid out in two ways. -/
theorem layout_neutral_table :
    ∃ p, assemble .cdc6504 "\nLDA $10,X\nDATA 1,2" = .ok p ∧
      assemble .cdc6504 "; table\n lda $10 \tX\r\nDATA 1,2" = .ok p := by
  have hfirst : IsLine [] [] "\nLDA $10,X\nDATA 1,2".toList :=
    ⟨.inl rfl, by decide, .inr (.inl ⟨_, rfl⟩)⟩
  have hcomment : IsLine [] "; table".toList "\nLDA $10,X\nDATA 1,2".toList :=
    ⟨.inl rfl, by decide, .inr (.inl ⟨_, rfl⟩)⟩
  have hline : ∀ line, '\n' ∉ line → IsLine "; table\n".toList line "\nDATA 1,2".toList :=
    fun line hline => ⟨.inr ⟨"; table".toList, rfl⟩, hline, .inr (.inl ⟨_, rfl⟩)⟩
  have hparts : ∀ word ∈ ["LDA".toList, "lda".toList], HasParts Isa.cdc6504.commentMarks none [' ']
      word (" $10".toList ++ [','] ++ ['X']) [] := by
    intro word hword
    refine ⟨.word (by decide) ?_, ?_, ?_, ?_, ?_⟩
    case refine_4 =>
      intro c hc
      obtain rfl := Option.some.inj hc
      decide
    all_goals
      revert word
      decide
  let steps := Relation.EqvGen fun text text' : String =>
    Reformats .cdc6504 text.toList text'.toList
  have hdeleted : steps "\nLDA $10,X\nDATA 1,2" "LDA $10,X\nDATA 1,2" :=
    .symm _ _ (.rel _ _ (.insert hfirst (by decide)))
  have hinserted : steps "LDA $10,X\nDATA 1,2" "; table\nLDA $10,X\nDATA 1,2" :=
    .rel _ _ (.insert hcomment (by decide))
  have hindented : steps "; table\nLDA $10,X\nDATA 1,2" "; table\n LDA $10,X\nDATA 1,2" :=
    .rel _ _ (.indent (hline ([] ++ "LDA $10,X".toList) (by decide)) .nil
      (.singleton (by decide)) (by decide))
  have hlower : sameLetters "LDA".toList "lda".toList = true := by decide
  have hcased : steps "; table\n LDA $10,X\nDATA 1,2" "; table\n lda $10,X\nDATA 1,2" :=
    .rel _ _ (.case (hline ([' '] ++ "LDA".toList ++ (" $10".toList ++ [','] ++ ['X']) ++ [])
      (by decide)) (hparts _ (by decide)) hlower)
  have htab : Separators " \t".toList := by decide
  have hseparated : steps "; table\n lda $10,X\nDATA 1,2" "; table\n lda $10 \tX\nDATA 1,2" :=
    .rel _ _ (.separators (hline ([' '] ++ "lda".toList ++ (" $10".toList ++ [','] ++ ['X']) ++ [])
      (by decide)) (hparts _ (by decide)) (by decide) (by decide) (by decide) (by decide) (by decide)
      htab (by decide) (by decide))
  have hended : steps "; table\n lda $10 \tX\nDATA 1,2" "; table\n lda $10 \tX\r\nDATA 1,2" :=
    .rel _ _ (@Reformats.ending _ "; table\n lda $10 \tX".toList "DATA 1,2".toList)
  have hsteps := hdeleted.trans _ _ _ (hinserted.trans _ _ _ (hindented.trans _ _ _
    (hcased.trans _ _ _ (hseparated.trans _ _ _ hended))))
  obtain ⟨p, hp⟩ : ∃ p, assemble .cdc6504 "\nLDA $10,X\nDATA 1,2" = .ok p := ⟨_, by rfl⟩
  exact ⟨p, hp, (layout_neutral hsteps).mp hp⟩

end Octet.Assembly
